import DeclAnalysis.Literal.Integer

/-!
# Character literals

The body of a character literal is read into *units*. A unit is either a character, written directly
or by an escape that names one, or a raw value given by an octal or hexadecimal escape. The encoding
then turns units into code units: characters are spread over UTF-8 bytes in the byte encodings, raw
values are kept and have to fit one code unit.

A literal of one code unit has type `char`. A literal of several, allowed only without an encoding
mark, has type `int`, and its code units are packed into 32 bits.
-/

namespace DeclAnalysis

/-- One element of the body of a character literal. -/
inductive CharUnit where
  /-- A character, by its code point. -/
  | character (code : Nat)
  /-- A code unit, by its value. -/
  | raw (value : Nat)
deriving DecidableEq

namespace CharUnit

/-- The code of an escape of one letter. -/
def simpleEscape? : Char → Option Nat
  | '\'' => some 0x27
  | '"' => some 0x22
  | '?' => some 0x3F
  | '\\' => some 0x5C
  | 'a' => some 0x07
  | 'b' => some 0x08
  | 'f' => some 0x0C
  | 'n' => some 0x0A
  | 'r' => some 0x0D
  | 't' => some 0x09
  | 'v' => some 0x0B
  | _ => none

/-- An octal escape has at most three digits, the first of which is already read. -/
def readOctal (first : Char) (rest : List Char) : CharUnit × List Char :=
  let more := (rest.take 2).takeWhile (Digits.isDigitOf 8)
  (.raw (Digits.number 8 (first :: more)), rest.drop more.length)

/-- A hexadecimal escape takes all the digits it can. -/
def readHex (rest : List Char) : Except LiteralFault (CharUnit × List Char) :=
  let run := rest.takeWhile (Digits.isDigitOf 16)
  if run.isEmpty then .error (.escapeDigitCount 'x' 1 0)
  else if Digits.number 16 run < Nat.pow 2 32 then
    .ok (.raw (Digits.number 16 run), rest.drop run.length)
  else .error (.escapeOutOfRange 0xFFFFFFFF)

/-- A universal character name has a fixed number of digits, and one more digit spoils it. -/
def readUniversal (escape : Char) (expected : Nat) (rest : List Char) :
    Except LiteralFault (CharUnit × List Char) :=
  let run := (rest.take (expected + 1)).takeWhile (Digits.isDigitOf 16)
  if run.length ≠ expected then .error (.escapeDigitCount escape expected run.length)
  else if (Digits.number 16 run).isValidChar then
    .ok (.character (Digits.number 16 run), rest.drop run.length)
  else .error (.invalidCodePoint (Digits.number 16 run))

/-- Reads an escape, given the character after the backslash. -/
def readEscape (escape : Char) (rest : List Char) : Except LiteralFault (CharUnit × List Char) :=
  match simpleEscape? escape with
  | some code => .ok (.character code, rest)
  | none =>
    if Digits.isDigitOf 8 escape then .ok (readOctal escape rest)
    else if escape = 'x' then readHex rest
    else if escape = 'u' then readUniversal escape 4 rest
    else if escape = 'U' then readUniversal escape 8 rest
    else .error (.unknownEscape escape)

/-- Reads one unit, given its first character. -/
def read (c : Char) (rest : List Char) : Except LiteralFault (CharUnit × List Char) :=
  if c = '\\' then
    match rest with
    | [] => .error .unterminatedCharacter
    | escape :: rest => readEscape escape rest
  else if c = '\'' ∨ c = '\n' then .error .unterminatedCharacter
  else .ok (.character c.toNat, rest)

/-! ### Reading a unit leaves no more than was there -/

theorem readEscape_length_le {escape : Char} {rest rest' : List Char} {u : CharUnit}
    (h : readEscape escape rest = .ok (u, rest')) : rest'.length ≤ rest.length := by
  simp only [readEscape, readOctal, readHex, readUniversal] at h
  grind

theorem read_length_le {c : Char} {rest rest' : List Char} {u : CharUnit}
    (h : read c rest = .ok (u, rest')) : rest'.length ≤ rest.length := by
  rw [read.eq_def] at h
  split at h
  · split at h
    · cases h
    · have := readEscape_length_le h
      simp only [List.length_cons]
      omega
  · split at h <;> cases h
    exact Nat.le_refl _

/-- The units of the body of a character literal. -/
def readAll : List Char → Except LiteralFault (List CharUnit)
  | [] => .ok []
  | c :: rest =>
    match _h : read c rest with
    | .error fault => .error fault
    | .ok (unit, rest') => (readAll rest').map (unit :: ·)
termination_by body => body.length
decreasing_by
  have := read_length_le _h
  simp only [List.length_cons]
  omega

end CharUnit

/-- The encodings of character literals, by the mark in front of the quote. -/
inductive CharEncoding where
  | narrow
  | utf8
  | utf16
  | utf32
  | wide
deriving DecidableEq

namespace CharEncoding

/-- The encoding that a text announces, and the text after its mark. -/
def split : List Char → CharEncoding × List Char
  | 'u' :: '8' :: rest => (.utf8, rest)
  | 'u' :: rest => (.utf16, rest)
  | 'U' :: rest => (.utf32, rest)
  | 'L' :: rest => (.wide, rest)
  | text => (.narrow, text)

/-- The greatest value of a code unit. -/
def unitLimit : CharEncoding → Nat
  | .narrow => 0xFF
  | .utf8 => 0xFF
  | .utf16 => 0xFFFF
  | .utf32 => 0xFFFFFFFF
  | .wide => 0xFFFFFFFF

/-- Whether the code units are bytes. -/
def isByte : CharEncoding → Bool
  | .narrow => true
  | .utf8 => true
  | _ => false

/-- The code units of one unit. Only the byte encodings spread a character over several. -/
def codeUnits (e : CharEncoding) : CharUnit → Except LiteralFault (List Nat)
  | .raw value => if e.unitLimit < value then .error (.escapeOutOfRange value) else .ok [value]
  | .character code =>
    if e.isByte && decide (0x7F < code) then
      .ok ((String.utf8EncodeChar (Char.ofNat code)).map UInt8.toNat)
    else .ok [code]

/-- The code units of a body, up to the first that does not fit. -/
def encode (e : CharEncoding) : List CharUnit → Except LiteralFault (List Nat)
  | [] => .ok []
  | u :: rest =>
    match e.codeUnits u with
    | .error fault => .error fault
    | .ok values => (e.encode rest).map (values ++ ·)

end CharEncoding

/-- The value of a `char` of one code unit: in a byte encoding the upper half is negative when
`char` is signed. -/
def Widths.charValue (w : Widths) (e : CharEncoding) (unit : Nat) : Int :=
  if e.isByte && w.charSigned && decide (Nat.pow 2 (w.char - 1) ≤ unit) then
    (unit : Int) - 2 * Nat.pow 2 (w.char - 1)
  else unit

/-- Bytes packed into a 32-bit word, the last one lowest; of more than four the last four remain. -/
def packBytes (values : List Nat) : Nat :=
  values.foldl (fun word v ↦ (word * 256 + v % 256) % Nat.pow 2 32) 0

namespace Literal

/-- The text between the quotes. -/
def unquote? : List Char → Option (List Char)
  | '\'' :: rest => dropEnding? rest ['\'']
  | _ => none

/-- What the code units of a character literal mean. -/
def codeUnitsMeaning (w : Widths) (e : CharEncoding) : List Nat → Except LiteralFault LiteralMeaning
  | [] => .error .emptyCharacter
  | [unit] => .ok ⟨.char .plain, .int (w.charValue e unit), false⟩
  | units =>
    if e = .narrow then .ok ⟨.int, .int (Int.bmod (packBytes units) (Nat.pow 2 32)), true⟩
    else .error .markedMultiCharacter

/-- The type and value of a character literal on a target. -/
def characterMeaning (w : Widths) (l : Literal) : Except LiteralFault LiteralMeaning :=
  let (encoding, rest) := CharEncoding.split l.text.toList
  match unquote? rest with
  | none => .error .unterminatedCharacter
  | some body =>
    match CharUnit.readAll body with
    | .error fault => .error fault
    | .ok units =>
      match encoding.encode units with
      | .error fault => .error fault
      | .ok values => codeUnitsMeaning w encoding values

end Literal

end DeclAnalysis
