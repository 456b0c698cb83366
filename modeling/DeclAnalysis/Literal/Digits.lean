import DeclAnalysis.Numeric.Rounding

/-!
# Digits and separators

Digits are ASCII letters and digits below the base. A separator is a single quote, and has a digit
on either side of it.

The digits of an integer literal are read into an accumulator of 127 bits. A number that outgrows it
is lost, and only the fact that it was too large is kept.
-/

namespace DeclAnalysis.Digits

/-- The mark that groups digits. -/
def separator : Char := '\''

/-- The value of a letter or digit, in the largest base that letters allow. -/
def rank? (c : Char) : Option Nat :=
  if c.isDigit then some (c.toNat - 48)
  else if c.isLower then some (c.toNat - 87)
  else if c.isUpper then some (c.toNat - 55)
  else none

/-- The value of a character as a digit of a base. -/
def value? (radix : Nat) (c : Char) : Option Nat := (rank? c).filter (· < radix)

/-- Whether a character is a digit of a base. -/
def isDigitOf (radix : Nat) (c : Char) : Bool := (value? radix c).isSome

/-- The number that digits stand for, most significant first. Characters that are no digits of the
base are passed over. -/
def number (radix : Nat) (digits : List Char) : Nat :=
  (digits.filterMap (value? radix)).foldl (fun n d ↦ n * radix + d) 0

/-- The least number that the accumulator does not hold. -/
def accumulatorBound : Nat := Nat.pow 2 127

/-- A number, if the accumulator holds it. -/
def accumulated? (n : Nat) : Option Nat := if n < accumulatorBound then some n else none

/-- The accumulator after one more digit: it is multiplied by the base, then the digit is added. -/
def pushDigit? (radix : Nat) (acc : Option Nat) (digit : Nat) : Option Nat :=
  (acc.bind fun n ↦ accumulated? (n * radix)).bind fun n ↦ accumulated? (n + digit)

/-- The number that digits stand for, unless the accumulator cannot hold it. -/
def accumulate? (radix : Nat) (digits : List Char) : Option Nat :=
  (digits.filterMap (value? radix)).foldl (pushDigit? radix) (some 0)

/-- Whether the first character of a text is a digit. -/
def startsWithDigit (isDigit : Char → Bool) : List Char → Bool
  | [] => false
  | c :: _ => isDigit c

/-- Whether every separator stands between two digits, given whether a digit stands in front. -/
def separatedAfter (isDigit : Char → Bool) : Bool → List Char → Bool
  | _, [] => true
  | before, c :: rest =>
    (c != separator || (before && startsWithDigit isDigit rest)) &&
      separatedAfter isDigit (isDigit c) rest

/-- Whether every separator stands between two digits. -/
def wellSeparated (isDigit : Char → Bool) (text : List Char) : Bool :=
  separatedAfter isDigit false text

/-- A text without its separators. -/
def dropSeparators (text : List Char) : List Char := text.filter (· != separator)

end DeclAnalysis.Digits
