import DeclAnalysis.Span

/-!
# Literals

A literal is a token as it was written: its whole text, with the base and the suffix already told
apart. The constructors `integer`, `floating` and `character` find these parts themselves; a literal
may also be put together by hand, and then its parts need not match its text.

Texts are taken apart as lists of characters.
-/

namespace DeclAnalysis

/-- The grammar that a literal belongs to. -/
inductive LiteralKind where
  | integer
  | character
  | floating
deriving DecidableEq

/-- The base of an integer literal. -/
inductive Radix where
  | decimal
  | octal
  | hex
  | binary
deriving DecidableEq

namespace Radix

/-- The base that a text announces. A leading zero alone announces octal, also in the text `0`. -/
def detect : List Char → Radix
  | '0' :: 'x' :: _ => .hex
  | '0' :: 'X' :: _ => .hex
  | '0' :: 'b' :: _ => .binary
  | '0' :: 'B' :: _ => .binary
  | '0' :: _ => .octal
  | _ => .decimal

/-- The number that a base stands for. -/
def value : Radix → Nat
  | .decimal => 10
  | .octal => 8
  | .hex => 16
  | .binary => 2

/-- The length of the mark in front of the digits. The octal zero is a digit itself. -/
def markLength : Radix → Nat
  | .decimal => 0
  | .octal => 0
  | .hex => 2
  | .binary => 2

/-- The name of a base. -/
def name : Radix → String
  | .decimal => "decimal"
  | .octal => "octal"
  | .hex => "hexadecimal"
  | .binary => "binary"

/-- A number written in a base, with its mark. -/
def spell (r : Radix) (v : Nat) : List Char :=
  match r with
  | .decimal => Nat.toDigits 10 v
  | .octal => '0' :: Nat.toDigits 8 v
  | .hex => '0' :: 'x' :: (Nat.toDigits 16 v).map Char.toUpper
  | .binary => '0' :: 'b' :: Nat.toDigits 2 v

end Radix

/-- A literal token. -/
structure Literal where
  /-- The grammar the literal belongs to. -/
  kind : LiteralKind
  /-- The whole text. -/
  text : String
  /-- The base of an integer literal. -/
  base : Option Radix
  /-- The suffix, which should end the text. -/
  suffix : String
  /-- Where the literal stands. -/
  span : Span
deriving DecidableEq

/-- The longest end of a text whose characters all satisfy a predicate. -/
def trailing (p : Char → Bool) (text : List Char) : List Char :=
  (text.reverse.takeWhile p).reverse

/-- A text without an ending, if it has that ending. -/
def dropEnding? (text ending : List Char) : Option (List Char) :=
  if ending.isSuffixOf text then some (text.take (text.length - ending.length)) else none

/-- A text without its first bytes in UTF-8; nothing is left if a character would be cut. -/
def dropBytes : Nat → List Char → List Char
  | 0, text => text
  | _ + 1, [] => []
  | n + 1, c :: text => if c.utf8Size ≤ n + 1 then dropBytes (n + 1 - c.utf8Size) text else []

namespace Literal

/-- The letters of an integer suffix. -/
def isIntegerSuffixChar (c : Char) : Bool := c == 'u' || c == 'U' || c == 'l' || c == 'L'

/-- The letters of a floating suffix: all but the mark of an exponent. -/
def isFloatingSuffixChar (c : Char) : Bool := c.isAlpha && c != 'e' && c != 'E'

/-- An integer literal, such as `0x1Fu`. -/
def integer (text : String) (span : Span) : Literal where
  kind := .integer
  text := text
  base := some (Radix.detect text.toList)
  suffix := String.ofList (trailing isIntegerSuffixChar text.toList)
  span := span

/-- A floating literal, such as `2e10f`. -/
def floating (text : String) (span : Span) : Literal where
  kind := .floating
  text := text
  base := none
  suffix := String.ofList (trailing isFloatingSuffixChar text.toList)
  span := span

/-- A character literal with its quotes. -/
def character (text : String) (span : Span) : Literal where
  kind := .character
  text := text
  base := none
  suffix := ""
  span := span

/-- The text without the suffix, if the suffix ends it. -/
def body? (l : Literal) : Option (List Char) := dropEnding? l.text.toList l.suffix.toList

/-- The text without the suffix and without the mark of the given base. -/
def digits (l : Literal) : List Char :=
  match l.body? with
  | none => []
  | some body =>
    match l.base with
    | none => body
    | some base => dropBytes base.markLength body

end Literal

end DeclAnalysis
