/-!
# Rounding to a binary format

A binary format keeps a fixed number of significant bits above a least exponent. A non-negative
number is written `m · 2 ^ q` with `m` of at most that many bits, and the pairs `(m, q)` are laid
out on one line of natural numbers: the *rank* of a pair counts the values of the format below it.
This is how the formats are stored in memory, and it makes rounding up past the last significand of
an exponent land on the first one of the next, with no case of its own.

Everything is exact arithmetic on natural numbers: a value to be rounded comes as a fraction.
-/

namespace DeclAnalysis.Numeric

/-- A binary floating-point format, told by its numbers of bits. -/
structure Format where
  /-- The bits of a significand below its leading one. -/
  fractionBits : Nat
  /-- The bits of the exponent field. -/
  exponentBits : Nat
deriving DecidableEq

namespace Format

/-- The 32-bit format. -/
def single : Format := ⟨23, 8⟩

/-- The 64-bit format. -/
def double : Format := ⟨52, 11⟩

/-- The scale at which the least positive value of the format is one, as a negated exponent. -/
def leastScale (f : Format) : Nat := Nat.pow 2 (f.exponentBits - 1) - 2 + f.fractionBits

/-- The rank of infinity, which is past every finite value. -/
def infinity (f : Format) : Nat := (Nat.pow 2 f.exponentBits - 1) * Nat.pow 2 f.fractionBits

/-- The significand of a rank. -/
def significand (f : Format) (rank : Nat) : Nat :=
  if rank < Nat.pow 2 f.fractionBits then rank
  else rank % Nat.pow 2 f.fractionBits + Nat.pow 2 f.fractionBits

/-- The number of doublings above the least scale at which a rank has its significand. -/
def lift (f : Format) (rank : Nat) : Nat := rank / Nat.pow 2 f.fractionBits - 1

/-- The value of a rank as a numerator over `2 ^ leastScale`. -/
def numerator (f : Format) (rank : Nat) : Nat := f.significand rank * Nat.pow 2 (f.lift rank)

end Format

/-- The quotient of two numbers, rounded to the nearest one; a half goes to the even neighbour. -/
def roundDiv (a b : Nat) : Nat :=
  let q := a / b
  let r := a % b
  if b < 2 * r ∨ (2 * r = b ∧ q % 2 = 1) then q + 1 else q

/-- The rank in a format of the value nearest to `a / b`; a half goes to the even significand. The
fraction is first scaled so that the least positive value of the format is one, then divided by the
power of two that leaves a significand of full length. -/
def Format.round (f : Format) (a b : Nat) : Nat :=
  let scaled := a * Nat.pow 2 f.leastScale
  let lift := (scaled / b).log2 - f.fractionBits
  let rank := roundDiv scaled (b * Nat.pow 2 lift) + lift * Nat.pow 2 f.fractionBits
  if rank < f.infinity then rank else f.infinity

end DeclAnalysis.Numeric
