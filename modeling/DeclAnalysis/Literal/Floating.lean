import DeclAnalysis.Literal.Integer

/-!
# Floating literals

A floating literal is a decimal fraction with an optional power of ten. Its value is the nearest
double; the suffix `f` rounds that double once more, to single precision. The precisions above
`double` are held in a double.
-/

namespace DeclAnalysis

/-- A text cut at the marks of a decimal fraction. -/
structure DecimalText where
  /-- The part in front of the point. -/
  whole : List Char
  /-- The part after the point, if there is a point. -/
  fraction : Option (List Char)
  /-- The part after the mark of the exponent, if there is one. -/
  exponent : Option (List Char)
deriving DecidableEq

namespace DecimalText

/-- Whether a character marks an exponent. -/
def isExponentMark (c : Char) : Bool := c == 'e' || c == 'E'

/-- The part of a text after its first character, if it has one. -/
def afterMark : List Char → Option (List Char)
  | [] => none
  | _ :: rest => some rest

/-- Cuts a text at the first exponent mark, and what is in front of it at the first point. -/
def cut (text : List Char) : DecimalText :=
  let mantissa := text.takeWhile fun c ↦ !isExponentMark c
  { whole := mantissa.takeWhile (· != '.')
    fraction := afterMark (mantissa.dropWhile (· != '.'))
    exponent := afterMark (text.dropWhile fun c ↦ !isExponentMark c) }

/-- Whether an exponent is negative. -/
def isNegative : List Char → Bool
  | '-' :: _ => true
  | _ => false

/-- The digits of an exponent, without its sign. -/
def dropSign : List Char → List Char
  | '+' :: rest => rest
  | '-' :: rest => rest
  | text => text

/-- Whether the parts are those of a floating literal: digits only, at least one of them in the
mantissa and one in the exponent, and a point or an exponent. -/
def isValid (d : DecimalText) : Bool :=
  d.whole.all Char.isDigit && (d.fraction.getD []).all Char.isDigit &&
    !(d.whole ++ d.fraction.getD []).isEmpty &&
    match d.exponent with
    | some e => !(dropSign e).isEmpty && (dropSign e).all Char.isDigit
    | none => d.fraction.isSome

/-- The nearest double. -/
def value (d : DecimalText) : Binary64 :=
  let fraction := d.fraction.getD []
  let exponent := d.exponent.getD []
  let power := Digits.number 10 (dropSign exponent)
  let digits := Digits.number 10 (d.whole ++ fraction)
  if isNegative exponent then Binary64.ofDecimal digits 0 (power + fraction.length)
  else Binary64.ofDecimal digits power fraction.length

end DecimalText

/-- The precision that a floating suffix selects. -/
def Precision.ofSuffix? : List Char → Option Precision
  | [] => some .double
  | ['f'] => some .float
  | ['F'] => some .float
  | ['l'] => some .longDouble
  | ['L'] => some .longDouble
  | _ => none

/-- A value rounded to a precision. -/
def Precision.round : Precision → Binary64 → Binary64
  | .float, v => v.toSingle
  | _, v => v

namespace Literal

/-- Whether a text starts as a hexadecimal number does. -/
def startsHex : List Char → Bool
  | '0' :: 'x' :: _ => true
  | '0' :: 'X' :: _ => true
  | _ => false

/-- The nearest double of the text of a floating literal without its suffix. -/
def floatingValue (body : List Char) : Except LiteralFault Binary64 :=
  if !Digits.wellSeparated Char.isDigit body then .error .misplacedSeparator
  else
    let parts := DecimalText.cut (Digits.dropSeparators body)
    if parts.isValid then .ok parts.value else .error .malformedFloat

/-- The type and value of a floating literal. -/
def floatingMeaning (l : Literal) : Except LiteralFault LiteralMeaning :=
  if startsHex l.text.toList then .error .hexFloat
  else
    match Precision.ofSuffix? l.suffix.toList with
    | none => .error (.invalidSuffix l.suffix)
    | some precision =>
      match l.body? with
      | none => .error .malformedFloat
      | some body =>
        match floatingValue body with
        | .error fault => .error fault
        | .ok value =>
          if (precision.round value).isFinite then
            .ok ⟨.floating precision, .float (precision.round value), false⟩
          else .error (.overflow l.text)

end Literal

end DeclAnalysis
