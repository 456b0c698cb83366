import DeclAnalysis.Constant
import DeclAnalysis.Literal.Digits
import DeclAnalysis.Literal.Fault
import DeclAnalysis.Ty.Range

/-!
# Integer literals

The suffix and the base of an integer literal select a list of candidate types, and the first one
that holds the value is the type of the literal. A decimal literal without `u` never becomes
unsigned.
-/

namespace DeclAnalysis

/-- The classes of integer suffixes, letter case aside. -/
inductive IntSuffix where
  | none
  | unsigned
  | long
  | unsignedLong
  | longLong
  | unsignedLongLong
deriving DecidableEq

namespace IntSuffix

/-- The class of the letters `l` that go with or without a `u`. -/
def ofLength? (unsigned : Bool) : List Char → Option IntSuffix
  | [] => some (if unsigned then .unsigned else .none)
  | ['l'] | ['L'] => some (if unsigned then .unsignedLong else .long)
  | ['l', 'l'] | ['L', 'L'] => some (if unsigned then .unsignedLongLong else .longLong)
  | _ => Option.none

/-- Whether a character is a `u` of either case. -/
def isUnsignedMark (c : Char) : Bool := c == 'u' || c == 'U'

/-- The rest of a suffix without its one `u`, which comes first or last. -/
def dropUnsignedMark? (text : List Char) : Option (List Char) :=
  match text with
  | [] => Option.none
  | c :: rest =>
    if isUnsignedMark c then some rest
    else if text.getLast?.any isUnsignedMark then some text.dropLast
    else Option.none

/-- The class of a suffix. The letters of `ll` have one case. -/
def parse? (text : List Char) : Option IntSuffix :=
  match dropUnsignedMark? text with
  | some rest => ofLength? true rest
  | Option.none => ofLength? false text

end IntSuffix

/-- Whether literals of a base may become unsigned on their own: all but the decimal ones. -/
def Radix.isPrefixed : Radix → Bool
  | .decimal => false
  | _ => true

/-- The candidate types of an integer literal, in the order in which they are tried. -/
def IntSuffix.candidates (suffix : IntSuffix) (prefixed : Bool) : List (IntWidth × Signedness) :=
  match suffix, prefixed with
  | .none, false => [(.int, .signed), (.long, .signed), (.longLong, .signed)]
  | .none, true =>
    [(.int, .signed), (.int, .unsigned), (.long, .signed), (.long, .unsigned),
      (.longLong, .signed), (.longLong, .unsigned)]
  | .unsigned, _ => [(.int, .unsigned), (.long, .unsigned), (.longLong, .unsigned)]
  | .long, false => [(.long, .signed), (.longLong, .signed)]
  | .long, true =>
    [(.long, .signed), (.long, .unsigned), (.longLong, .signed), (.longLong, .unsigned)]
  | .unsignedLong, _ => [(.long, .unsigned), (.longLong, .unsigned)]
  | .longLong, false => [(.longLong, .signed)]
  | .longLong, true => [(.longLong, .signed), (.longLong, .unsigned)]
  | .unsignedLongLong, _ => [(.longLong, .unsigned)]

/-- What a literal means. -/
structure LiteralMeaning where
  /-- The type of the literal. -/
  type : Ty
  /-- The value of the literal. -/
  value : Constant
  /-- Whether it is a character literal of several characters. -/
  multiChar : Bool
deriving DecidableEq

namespace Literal

/-- The base an integer literal is read in: the one it carries, or else the one its text announces.
-/
def radix (l : Literal) : Radix := l.base.getD (Radix.detect l.text.toList)

/-- The number that the digits of an integer literal stand for, or nothing if the accumulator cannot
hold it. A foreign character is blamed on the suffix if only letters follow it. -/
def integerValue (l : Literal) : Except LiteralFault (Option Nat) :=
  let radix := l.radix.value
  let digits := l.digits
  if digits.isEmpty then .error (.missingDigits l.radix)
  else if !Digits.wellSeparated Char.isAlphanum digits then .error .misplacedSeparator
  else
    match digits.dropWhile fun c ↦ c == Digits.separator || Digits.isDigitOf radix c with
    | [] => .ok (Digits.accumulate? radix digits)
    | c :: rest =>
      if (c :: rest).all Char.isAlpha then
        .error (.invalidSuffix (String.ofList (c :: rest) ++ l.suffix))
      else .error (.invalidDigit c l.radix)

/-- The type and value of an integer literal on a target. -/
def integerMeaning (w : Widths) (l : Literal) : Except LiteralFault LiteralMeaning :=
  match IntSuffix.parse? l.suffix.toList with
  | none => .error (.invalidSuffix l.suffix)
  | some suffix =>
    match l.integerValue with
    | .error fault => .error fault
    | .ok none => .error (.overflow l.text)
    | .ok (some value) =>
      let candidates := suffix.candidates l.radix.isPrefixed
      match candidates.find? fun (width, sign) ↦ w.fits width sign value with
      | some (width, sign) => .ok ⟨.integer width sign, .int value, false⟩
      | none => .error (.overflow l.text)

end Literal

end DeclAnalysis
