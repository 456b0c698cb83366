import DeclAnalysis.Literal.Basic

/-!
# Faults of literals

Why a text is no literal of its kind, and the words for it.
-/

namespace DeclAnalysis

/-- What is wrong with a literal. -/
inductive LiteralFault where
  | invalidDigit (digit : Char) (base : Radix)
  | missingDigits (base : Radix)
  | misplacedSeparator
  | invalidSuffix (suffix : String)
  | unknownEscape (escape : Char)
  /-- An escape with a number of hexadecimal digits other than the one it needs. -/
  | escapeDigitCount (escape : Char) (expected found : Nat)
  /-- An octal or hexadecimal escape that is too large for a code unit. -/
  | escapeOutOfRange (value : Nat)
  | invalidCodePoint (value : Nat)
  | emptyCharacter
  | unterminatedCharacter
  /-- A literal with an encoding mark and more than one character. -/
  | markedMultiCharacter
  | hexFloat
  | malformedFloat
  /-- A value that no candidate type holds. -/
  | overflow (text : String)
deriving DecidableEq

/-- A number in lowercase hexadecimal with its mark. -/
def lowerHex (v : Nat) : String := "0x" ++ String.ofList (Nat.toDigits 16 v)

/-- A number in uppercase hexadecimal with a lowercase mark. -/
def upperHex (v : Nat) : String := "0x" ++ String.ofList ((Nat.toDigits 16 v).map Char.toUpper)

namespace LiteralFault

/-- The text of a fault. -/
def message : LiteralFault → String
  | .invalidDigit digit base =>
    "invalid digit `" ++ digit.toString ++ "` in " ++ base.name ++ " literal"
  | .missingDigits base => base.name ++ " literal has no digits"
  | .misplacedSeparator => "misplaced digit separator"
  | .invalidSuffix suffix => "invalid suffix `" ++ suffix ++ "` on literal"
  | .unknownEscape escape => "unknown escape sequence `\\" ++ escape.toString ++ "`"
  | .escapeDigitCount escape expected found =>
    "`\\" ++ escape.toString ++ "` needs exactly " ++ toString expected ++
      " hex digits, found " ++ toString found
  | .escapeOutOfRange value =>
    "escape value " ++ lowerHex value ++ " does not fit the character type"
  | .invalidCodePoint value => upperHex value ++ " is not a valid code point"
  | .emptyCharacter => "empty character literal"
  | .unterminatedCharacter => "unterminated character literal"
  | .markedMultiCharacter =>
    "character literal with an encoding prefix holds more than one character"
  | .hexFloat => "hexadecimal floating literal"
  | .malformedFloat => "malformed floating literal"
  | .overflow text => "integer literal `" ++ text ++ "` is too large"

/-- Whether the fault is only that the value is too large. -/
def isOverflow : LiteralFault → Bool
  | .overflow _ => true
  | _ => false

end LiteralFault

/-- A fault and the place of the literal that has it. -/
structure LiteralError where
  /-- Where the literal stands. -/
  span : Span
  /-- What is wrong with it. -/
  fault : LiteralFault
deriving DecidableEq

end DeclAnalysis
