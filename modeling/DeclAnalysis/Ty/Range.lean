import DeclAnalysis.Numeric.Rounding
import DeclAnalysis.Ty.Basic

/-!
# Integer ranges

The range of an integral type depends on the target: on the number of bits of each type, and on
whether plain `char` is signed. Widths are meant to be positive; a signed type of `b` bits ranges
over `-2 ^ (b - 1)` to `2 ^ (b - 1) - 1`, an unsigned one over `0` to `2 ^ b - 1`.
-/

namespace DeclAnalysis

/-- The bit widths of a target. -/
structure Widths where
  /-- The bits of the character types. -/
  char : Nat := 8
  /-- The bits of `short`. -/
  short : Nat := 16
  /-- The bits of `int`. -/
  int : Nat := 32
  /-- The bits of `long`. -/
  long : Nat := 32
  /-- The bits of `long long`. -/
  longLong : Nat := 64
  /-- Whether plain `char` has negative values. -/
  charSigned : Bool := true
deriving DecidableEq

/-- A range of integers, both ends included. -/
structure IntRange where
  /-- The least member. -/
  lo : Int
  /-- The greatest member. -/
  hi : Int
deriving DecidableEq

namespace IntRange

/-- Whether an integer lies in the range. -/
def contains (r : IntRange) (v : Int) : Bool := decide (r.lo ≤ v) && decide (v ≤ r.hi)

/-- Whether the range reaches over another one, end by end. -/
def covers (r s : IntRange) : Bool := decide (r.lo ≤ s.lo) && decide (s.hi ≤ r.hi)

/-- The range of the integers of a number of bits. -/
def ofBits (bits : Nat) (signed : Bool) : IntRange :=
  if signed then ⟨-(Nat.pow 2 (bits - 1) : Int), Nat.pow 2 (bits - 1) - 1⟩
  else ⟨0, Nat.pow 2 bits - 1⟩

@[simp] theorem contains_iff {r : IntRange} {v : Int} :
    r.contains v = true ↔ r.lo ≤ v ∧ v ≤ r.hi := by
  simp [contains]

@[simp] theorem covers_iff {r s : IntRange} :
    r.covers s = true ↔ r.lo ≤ s.lo ∧ s.hi ≤ r.hi := by
  simp [covers]

end IntRange

namespace Widths

/-- The target on which `long` has 64 bits. -/
def lp64 : Widths := { long := 64 }

/-- The bits of an integer width. -/
def bits (w : Widths) : IntWidth → Nat
  | .short => w.short
  | .int => w.int
  | .long => w.long
  | .longLong => w.longLong

/-- Whether a character type has negative values. -/
def charIsSigned (w : Widths) : CharKind → Bool
  | .plain => w.charSigned
  | .signed => true
  | .unsigned => false

/-- The range of an integral type; no other type has one. -/
def range? (w : Widths) (t : Ty) : Option IntRange :=
  match t.withoutAlias with
  | .bool => some ⟨0, 1⟩
  | .char sign => some (.ofBits w.char (w.charIsSigned sign))
  | .integer width sign => some (.ofBits (w.bits width) sign.isSigned)
  | _ => none

/-- Whether an integer type holds a value. -/
def fits (w : Widths) (width : IntWidth) (sign : Signedness) (v : Int) : Bool :=
  (IntRange.ofBits (w.bits width) sign.isSigned).contains v

end Widths

end DeclAnalysis
