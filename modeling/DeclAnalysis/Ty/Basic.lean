/-!
# Types

A type is a small tree over the built-in types. An alias carries the type it stands for, so there is
no table of type names to consult, and a chain of aliases always ends.

Three views of a type recur. `withoutAlias` looks through aliases at the top only; `designated` also
looks through one reference, and gives the type of the thing an expression designates; `canonical`
removes the aliases at every depth. Two types are the same when their canonical forms are equal.
-/

namespace DeclAnalysis

/-- How a character type is signed. Plain `char` is a type of its own, whatever its range. -/
inductive CharKind where
  | plain
  | signed
  | unsigned
deriving DecidableEq

/-- How an integer type is signed. -/
inductive Signedness where
  | signed
  | unsigned
deriving DecidableEq

/-- Whether negative values belong to the type. -/
def Signedness.isSigned : Signedness → Bool
  | .signed => true
  | .unsigned => false

/-- The widths of the integer types. -/
inductive IntWidth where
  | short
  | int
  | long
  | longLong
deriving DecidableEq

/-- The keyword of a width. -/
def IntWidth.keyword : IntWidth → String
  | .short => "short"
  | .int => "int"
  | .long => "long"
  | .longLong => "long long"

/-- The precisions of the floating types. -/
inductive Precision where
  | float
  | double
  | longDouble
deriving DecidableEq

namespace Precision

/-- The keyword of a precision. -/
def keyword : Precision → String
  | .float => "float"
  | .double => "double"
  | .longDouble => "long double"

/-- The place of a precision in the order `float`, `double`, `long double`. -/
def rank : Precision → Nat
  | .float => 0
  | .double => 1
  | .longDouble => 2

end Precision

/-- A type. -/
inductive Ty where
  | bool
  | char (sign : CharKind)
  | integer (width : IntWidth) (sign : Signedness)
  | floating (precision : Precision)
  | void
  | pointer (pointee : Ty)
  /-- An array, of unknown length if none is given. -/
  | array (element : Ty) (length : Option Nat)
  | reference (referent : Ty)
  /-- A name for another type. -/
  | named (name : String) (underlying : Ty)
  /-- The type of a brace-enclosed list whose elements share a type. -/
  | initializerList (element : Ty)
deriving DecidableEq

namespace Ty

/-- The type `int`. -/
def int : Ty := .integer .int .signed

/-- The type behind the aliases at the top. -/
def withoutAlias : Ty → Ty
  | .named _ underlying => underlying.withoutAlias
  | t => t

/-- The type behind one reference, which may itself stand behind aliases; any other type is left as
it is. -/
def withoutReference (t : Ty) : Ty :=
  match t.withoutAlias with
  | .reference referent => referent
  | _ => t

/-- The type of what an expression of this type designates: no alias and no reference at the top. -/
def designated (t : Ty) : Ty :=
  match t.withoutAlias with
  | .reference referent => referent.withoutAlias
  | u => u

/-- The type with the aliases at every depth replaced by what they stand for. -/
def canonical : Ty → Ty
  | .pointer pointee => .pointer pointee.canonical
  | .array element length => .array element.canonical length
  | .reference referent => .reference referent.canonical
  | .named _ underlying => underlying.canonical
  | .initializerList element => .initializerList element.canonical
  | t => t

/-- Two types are the same when they agree once aliases are resolved. -/
def same (t u : Ty) : Bool := decide (t.canonical = u.canonical)

/-- A truth value, a character or an integer, perhaps behind aliases. -/
def isIntegral (t : Ty) : Bool :=
  match t.withoutAlias with
  | .bool | .char _ | .integer _ _ => true
  | _ => false

/-- A floating-point number, perhaps behind aliases. -/
def isFloating (t : Ty) : Bool :=
  match t.withoutAlias with
  | .floating _ => true
  | _ => false

/-- A number of either kind. -/
def isArithmetic (t : Ty) : Bool := t.isIntegral || t.isFloating

/-- A reference, perhaps behind aliases. -/
def isReference (t : Ty) : Bool :=
  match t.withoutAlias with
  | .reference _ => true
  | _ => false

/-- An array on the spot, not behind an alias. -/
def isArray : Ty → Bool
  | .array _ _ => true
  | _ => false

/-! ### The two ways to remove aliases agree -/

@[simp] theorem canonical_withoutAlias (t : Ty) : t.withoutAlias.canonical = t.canonical := by
  induction t with
  | named _ _ ih => simpa [withoutAlias, canonical] using ih
  | _ => rfl

@[simp] theorem withoutAlias_canonical (t : Ty) : t.canonical.withoutAlias = t.canonical := by
  induction t with
  | named _ _ ih => simpa [canonical] using ih
  | _ => rfl

@[simp] theorem withoutAlias_withoutAlias (t : Ty) :
    t.withoutAlias.withoutAlias = t.withoutAlias := by
  induction t with
  | named _ _ ih => simpa [withoutAlias] using ih
  | _ => rfl

@[simp] theorem canonical_canonical (t : Ty) : t.canonical.canonical = t.canonical := by
  induction t with
  | named _ _ ih => simpa [canonical] using ih
  | _ => simp_all [canonical]

@[simp] theorem same_iff {t u : Ty} : t.same u = true ↔ t.canonical = u.canonical := by
  simp [same]

end Ty

end DeclAnalysis
