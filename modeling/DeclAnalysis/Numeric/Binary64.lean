import DeclAnalysis.Numeric.Rounding

/-!
# Double-precision values

A double is kept as its 64 bits, so that equality of values is equality of data and nothing depends
on the machine's arithmetic. The bits below the sign are the rank of the magnitude in the format,
which is all that rounding and exactness need.
-/

namespace DeclAnalysis

open Numeric (Format)

/-- A double-precision number, by its bits. -/
structure Binary64 where
  /-- Sign, exponent and fraction, from the top. -/
  bits : UInt64
deriving DecidableEq

namespace Binary64

/-- The rank of the magnitude: all bits but the sign. -/
def rank (v : Binary64) : Nat := v.bits.toNat % Nat.pow 2 63

/-- The non-negative double of a rank. -/
def ofRank (rank : Nat) : Binary64 := ⟨UInt64.ofNat rank⟩

/-- Neither an infinity nor a value that is no number. -/
def isFinite (v : Binary64) : Bool := decide (v.rank < Format.double.infinity)

/-- The double nearest to `a / b`. -/
def ofFraction (a b : Nat) : Binary64 := ofRank (Format.double.round a b)

/-- Past this power of ten no double is finite, and below its inverse every number rounds to zero.
-/
def decimalReach : Nat := 400

/-- The double nearest to `digits · 10 ^ (up - down)`. A power of ten that is out of reach is
decided without being computed. -/
def ofDecimal (digits up down : Nat) : Binary64 :=
  if digits = 0 then ofRank 0
  else if down ≤ up then
    if up - down ≤ decimalReach then ofFraction (digits * Nat.pow 10 (up - down)) 1
    else ofRank Format.double.infinity
  else
    if down - up ≤ digits.log2 + 1 + decimalReach then ofFraction digits (Nat.pow 10 (down - up))
    else ofRank 0

/-- The rank in the single format of the single nearest to the magnitude of a finite double. -/
def singleRank (v : Binary64) : Nat :=
  Format.single.round (Format.double.numerator v.rank) (Nat.pow 2 Format.double.leastScale)

/-- The double with the value of a rank of the single format. -/
def ofSingleRank (rank : Nat) : Binary64 :=
  if rank < Format.single.infinity then
    ofFraction (Format.single.numerator rank) (Nat.pow 2 Format.single.leastScale)
  else ofRank Format.double.infinity

/-- A non-negative double rounded to single precision, as a double again. -/
def toSingle (v : Binary64) : Binary64 :=
  if v.isFinite then ofSingleRank v.singleRank else v

/-- A double is a single when it is finite and single precision holds its magnitude exactly. -/
def isSingle (v : Binary64) : Bool :=
  v.isFinite && decide (v.singleRank < Format.single.infinity) &&
    decide ((ofSingleRank v.singleRank).rank = v.rank)

end Binary64

end DeclAnalysis
