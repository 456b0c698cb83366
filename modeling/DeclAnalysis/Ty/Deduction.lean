import DeclAnalysis.Ty.Basic

/-!
# Placeholder types

What `auto` and `decltype` stand for. By value, `auto` drops a reference and turns an array into a
pointer to its element; a brace-enclosed list deduces a list type when its elements agree; `auto&`
binds to the object itself, and `auto*` asks for a pointer. `decltype` keeps the declared type.
-/

namespace DeclAnalysis

/-- One layer of a declarator. -/
inductive DeclaratorLayer where
  | pointer
  | reference
  /-- An array, of unknown length if none is given. -/
  | array (length : Option Nat)
deriving DecidableEq

/-- Whether a layer makes an array. -/
def DeclaratorLayer.isArray : DeclaratorLayer → Bool
  | .array _ => true
  | _ => false

/-- The initializer of a placeholder, by the types of its elements. -/
inductive PlaceholderSource where
  /-- One expression. -/
  | expr (type : Ty)
  /-- A list after an equals sign. -/
  | copyList (types : List Ty)
  /-- A list right after the name. -/
  | directList (types : List Ty)
deriving DecidableEq

/-- Why no type can be deduced. -/
inductive DeductionFailure where
  | noInitializer
  | emptyList
  /-- A list right after the name with a number of elements other than one. -/
  | directListArity (count : Nat)
  /-- A parenthesized initializer with a number of elements other than one. -/
  | parenthesizedList (count : Nat)
  | voidInitializer
  /-- An initializer of this type for a pointer placeholder. -/
  | notAPointer (type : Ty)
  | arrayOfPlaceholder
  | unsupportedDeclarator
deriving DecidableEq

/-- The text of a failure. -/
def DeductionFailure.message : DeductionFailure → String
  | .noInitializer => "declaration has no initializer"
  | .emptyList => "empty brace-enclosed list"
  | .directListArity n =>
    "direct-list-initialization needs exactly one element, found " ++ toString n
  | .parenthesizedList n =>
    "parenthesized initializer needs exactly one element, found " ++ toString n
  | .voidInitializer => "initializer has type `void`"
  | .notAPointer _ => "`auto*` initializer is not a pointer"
  | .arrayOfPlaceholder => "array of placeholder type"
  | .unsupportedDeclarator => "declarator cannot be combined with a placeholder"

/-- What can go wrong in a deduction. -/
inductive DeductionError where
  /-- Two elements of a list that decay to different types. -/
  | ambiguousList (first conflicting : Ty)
  /-- No type can be deduced at all. -/
  | cannotDeduce (reason : DeductionFailure)
deriving DecidableEq

namespace Ty

/-- The type of a copy of a value: no reference, and a pointer in place of an array. There is no
copy of `void`. -/
def decay (t : Ty) : Except DeductionError Ty :=
  match t.withoutReference.withoutAlias with
  | .void => .error (.cannotDeduce .voidInitializer)
  | .array element _ => .ok (.pointer element)
  | _ => .ok t.withoutReference

/-- Checks that every type of a list decays to the same type as a first one, from left to right. -/
def agreeWith (first : Ty) : List Ty → Except DeductionError Unit
  | [] => .ok ()
  | t :: rest =>
    match t.decay with
    | .error e => .error e
    | .ok other =>
      if first.same other then agreeWith first rest else .error (.ambiguousList first other)

end Ty

namespace PlaceholderSource

/-- The type that a placeholder by value stands for. -/
def deduce : PlaceholderSource → Except DeductionError Ty
  | .expr t => t.decay
  | .copyList [] => .error (.cannotDeduce .emptyList)
  | .copyList (t :: rest) =>
    match t.decay with
    | .error e => .error e
    | .ok first => (first.agreeWith rest).map fun _ ↦ .initializerList first
  | .directList [t] => t.decay
  | .directList types => .error (.cannotDeduce (.directListArity types.length))

/-- The type that a reference placeholder stands for. An expression is bound as it is, without a
copy; a list is first deduced by value. -/
def deduceReference : PlaceholderSource → Except DeductionError Ty
  | .expr t =>
    if t.withoutReference.withoutAlias = .void then .error (.cannotDeduce .voidInitializer)
    else .ok (.reference t.withoutReference)
  | init => init.deduce.map .reference

/-- The type that a pointer placeholder stands for. -/
def deducePointer (init : PlaceholderSource) : Except DeductionError Ty :=
  match init.deduce with
  | .error e => .error e
  | .ok t =>
    match t.withoutAlias with
    | .pointer _ => .ok t
    | _ => .error (.cannotDeduce (.notAPointer t))

/-- The type that a placeholder with declarator layers stands for. -/
def deduceWith (init : PlaceholderSource) (declarator : List DeclaratorLayer) :
    Except DeductionError Ty :=
  if declarator.any (·.isArray) then .error (.cannotDeduce .arrayOfPlaceholder)
  else
    match declarator with
    | [] => init.deduce
    | [.reference] => init.deduceReference
    | [.pointer] => init.deducePointer
    | _ => .error (.cannotDeduce .unsupportedDeclarator)

end PlaceholderSource

/-- The type that `decltype` gives for an operand: its own type, or a reference to it when the
operand is a name in parentheses and not a reference already. -/
def Ty.decltype (operand : Ty) (parenthesizedName : Bool) : Ty :=
  if parenthesizedName && !operand.isReference then .reference operand else operand

end DeclAnalysis
