import DeclAnalysis.Literal.Meaning
import DeclAnalysis.Proofs.Literal.Numeral
import DeclAnalysis.Proofs.Ty.Range
import Mathlib.Data.List.DropRight

/-!
# The grammar of integer literals

An integer literal is a mark of its base, a numeral of that base and a suffix. `IntegerSpelling`
holds these three parts with the proofs that they are what they should be, and `text` puts them
together.

A literal is taken apart from both ends: the base is told from the first two characters of the
text, the suffix from its last letters, and the digits are what the two leave. The cuts fall where
the parts meet, because no mark and no numeral ends in a letter of a suffix. So every spelling is
taken apart into its own parts (`detect_text`, `trailing_text`, `digits_integer`), and a text that
is read without a fault is the text of a spelling (`exists_of_integerValue`).
-/

namespace DeclAnalysis

open Digits (Numeral IsDigit Scans separator accumulate? accumulated?)

/-! ## Suffixes -/

namespace IntSuffix

/-- The spellings of a suffix: `u` has either case and stands in front or behind, and the letters of
`ll` have one case. -/
def spellings : IntSuffix → List (List Char)
  | .none => [[]]
  | .unsigned => [['u'], ['U']]
  | .long => [['l'], ['L']]
  | .longLong => [['l', 'l'], ['L', 'L']]
  | .unsignedLong =>
    [['u', 'l'], ['u', 'L'], ['U', 'l'], ['U', 'L'],
      ['l', 'u'], ['l', 'U'], ['L', 'u'], ['L', 'U']]
  | .unsignedLongLong =>
    [['u', 'l', 'l'], ['u', 'L', 'L'], ['U', 'l', 'l'], ['U', 'L', 'L'],
      ['l', 'l', 'u'], ['l', 'l', 'U'], ['L', 'L', 'u'], ['L', 'L', 'U']]

private theorem isUnsignedMark_iff {c : Char} : isUnsignedMark c = true ↔ c = 'u' ∨ c = 'U' := by
  simp [isUnsignedMark]

private theorem exists_of_dropUnsignedMark? {text rest : List Char}
    (hdrop : dropUnsignedMark? text = some rest) :
    ∃ c, (c = 'u' ∨ c = 'U') ∧ (text = c :: rest ∨ text = rest ++ [c]) := by
  rcases text with - | ⟨c, tail⟩
  · exact absurd hdrop (by simp [dropUnsignedMark?])
  rw [dropUnsignedMark?] at hdrop
  split_ifs at hdrop with hfirst hlast
  · rw [Option.some.injEq] at hdrop
    exact ⟨c, isUnsignedMark_iff.mp hfirst, .inl (by rw [hdrop])⟩
  · obtain ⟨last, hgetLast, hmark⟩ := (Option.any_eq_true _ _).mp hlast
    rw [Option.some.injEq] at hdrop
    refine ⟨last, isUnsignedMark_iff.mp hmark, .inr ?_⟩
    rw [← hdrop, List.dropLast_append_getLast? last hgetLast]

private theorem cases_of_ofLength? {unsigned : Bool} {rest : List Char} {suffix : IntSuffix}
    (hlength : ofLength? unsigned rest = some suffix) :
    rest = [] ∧ suffix = (if unsigned then .unsigned else .none) ∨
      (rest = ['l'] ∨ rest = ['L']) ∧ suffix = (if unsigned then .unsignedLong else .long) ∨
      (rest = ['l', 'l'] ∨ rest = ['L', 'L']) ∧
        suffix = (if unsigned then .unsignedLongLong else .longLong) := by
  rw [ofLength?.eq_def] at hlength
  split at hlength <;> simp_all

/-- **A suffix is accepted in exactly its spellings.** -/
theorem parse?_eq_some_iff {text : List Char} {suffix : IntSuffix} :
    parse? text = some suffix ↔ text ∈ suffix.spellings := by
  constructor
  · intro hparse
    rw [parse?] at hparse
    split at hparse
    · next rest hdrop =>
      obtain ⟨c, rfl | rfl, rfl | rfl⟩ := exists_of_dropUnsignedMark? hdrop <;>
        obtain ⟨rfl, rfl⟩ | ⟨rfl | rfl, rfl⟩ | ⟨rfl | rfl, rfl⟩ := cases_of_ofLength? hparse <;>
        decide
    · obtain ⟨rfl, rfl⟩ | ⟨rfl | rfl, rfl⟩ | ⟨rfl | rfl, rfl⟩ := cases_of_ofLength? hparse <;>
        decide
  · revert text
    cases suffix <;> decide

private theorem isIntegerSuffixChar_of_mem {suffix : IntSuffix} {ending : List Char}
    (hending : ending ∈ suffix.spellings) {c : Char} (hmem : c ∈ ending) :
    Literal.isIntegerSuffixChar c = true := by
  have hall : ∀ ending ∈ suffix.spellings, ending.all Literal.isIntegerSuffixChar = true := by
    cases suffix <;> decide
  exact List.all_eq_true.mp (hall ending hending) c hmem

end IntSuffix

/-! ## Marks -/

namespace Radix

/-- The mark in front of the digits of a text. A text without a mark is octal if it starts with a
zero, and decimal otherwise. -/
def IsMark (mark text : List Char) : Radix → Prop
  | .hex => mark = ['0', 'x'] ∨ mark = ['0', 'X']
  | .binary => mark = ['0', 'b'] ∨ mark = ['0', 'B']
  | .octal => mark = [] ∧ text.head? = some '0'
  | .decimal => mark = [] ∧ text.head? ≠ some '0'

private theorem value_pos (r : Radix) : 0 < r.value := by cases r <;> decide

private theorem value_le (r : Radix) : r.value ≤ 16 := by cases r <;> decide

private theorem exists_isMark (text : List Char) :
    ∃ mark rest, text = mark ++ rest ∧ IsMark mark text (detect text) := by
  rw [detect.eq_def]
  split
  · exact ⟨_, _, rfl, .inl rfl⟩
  · exact ⟨_, _, rfl, .inr rfl⟩
  · exact ⟨_, _, rfl, .inl rfl⟩
  · exact ⟨_, _, rfl, .inr rfl⟩
  · exact ⟨_, _, rfl, rfl, rfl⟩
  · next hzero =>
    refine ⟨_, _, rfl, rfl, fun hhead ↦ ?_⟩
    obtain ⟨rest, htext⟩ := List.head?_eq_some_iff.mp hhead
    exact hzero rest htext

namespace IsMark

variable {r : Radix} {mark text : List Char}

private theorem dropBytes_append (hmark : IsMark mark text r) (digits : List Char) :
    dropBytes r.markLength (mark ++ digits) = digits := by
  cases r with
  | hex | binary => rcases hmark with rfl | rfl <;> simp [dropBytes, markLength, Char.utf8Size]
  | octal | decimal =>
    obtain ⟨rfl, -⟩ := hmark
    simp [dropBytes, markLength]

private theorem not_isIntegerSuffixChar (hmark : IsMark mark text r) {c : Char} (hmem : c ∈ mark) :
    Literal.isIntegerSuffixChar c = false := by
  have hall : (mark.all fun c ↦ !Literal.isIntegerSuffixChar c) = true := by
    cases r with
    | hex | binary => rcases hmark with rfl | rfl <;> decide
    | octal | decimal =>
      obtain ⟨rfl, -⟩ := hmark
      rfl
  simpa using List.all_eq_true.mp hall c hmem

end IsMark

private theorem detect_zero {rest : List Char} (hrest : ∀ c ∈ rest, c ∉ ['x', 'X', 'b', 'B']) :
    detect ('0' :: rest) = .octal := by
  rcases rest with - | ⟨c, rest⟩
  · rfl
  · have hletter := hrest c List.mem_cons_self
    simp only [List.mem_cons, List.not_mem_nil, or_false, not_or] at hletter
    obtain ⟨hx, hX, hb, hB⟩ := hletter
    simp [detect, hx, hX, hb, hB]

private theorem detect_of_head?_ne {text : List Char} (hhead : text.head? ≠ some '0') :
    detect text = .decimal := by
  rcases text with - | ⟨c, rest⟩
  · rfl
  · have hc : c ≠ '0' := fun heq ↦ hhead (congrArg some heq)
    simp [detect, hc]

end Radix

/-! ## The cut in front of the suffix -/

theorem trailing_append {p : Char → Bool} {body ending : List Char}
    (hbody : ∀ hne : body ≠ [], p (body.getLast hne) = false)
    (hending : ∀ c ∈ ending, p c = true) : trailing p (body ++ ending) = ending := by
  have hnone : (body.reverse.takeWhile p).reverse = [] :=
    List.rtakeWhile_eq_nil_iff.mpr fun hne ↦ by rw [hbody hne]; exact Bool.false_ne_true
  rw [trailing, List.reverse_append,
    List.takeWhile_append_of_pos fun c hmem ↦ hending c (List.mem_reverse.mp hmem),
    List.reverse_append, hnone, List.nil_append, List.reverse_reverse]

theorem dropEnding?_append (body ending : List Char) :
    dropEnding? (body ++ ending) ending = some body := by
  simp [dropEnding?]

namespace Literal

theorem exists_body_of_trailing {l : Literal} {p : Char → Bool}
    (hsuffix : l.suffix = String.ofList (trailing p l.text.toList)) :
    ∃ body, l.text.toList = body ++ l.suffix.toList ∧ l.body? = some body := by
  obtain ⟨body, htext⟩ : ∃ body, l.text.toList = body ++ l.suffix.toList := by
    rw [hsuffix, String.toList_ofList]
    exact ⟨_, List.rdropWhile_append_rtakeWhile.symm⟩
  exact ⟨body, htext, by rw [body?, htext, dropEnding?_append]⟩

private theorem exists_body (text : String) (span : Span) :
    ∃ body, text.toList = body ++ (integer text span).suffix.toList ∧
      (integer text span).body? = some body :=
  exists_body_of_trailing (l := integer text span) rfl

end Literal

/-! ## Spellings -/

/-- An integer literal by its parts: the mark of its base, a numeral of that base and a suffix. -/
structure IntegerSpelling where
  /-- The base. -/
  radix : Radix
  /-- The mark of the base. -/
  mark : List Char
  /-- The digits, with separators. -/
  digits : List Char
  /-- The values of the digits, most significant first. -/
  values : List Nat
  /-- The class of the suffix. -/
  suffix : IntSuffix
  /-- The suffix as it is written. -/
  ending : List Char
  isMark : Radix.IsMark mark (mark ++ digits ++ ending) radix
  numeral : Numeral radix.value digits values
  ending_mem : ending ∈ suffix.spellings

namespace IntegerSpelling

variable (s : IntegerSpelling)

/-- The parts put together. -/
def text : String := String.ofList (s.mark ++ s.digits ++ s.ending)

/-- The positional value of the digits. -/
def value : Nat := Nat.ofDigits s.radix.value s.values.reverse

/-- The candidate types, in the order in which they are tried. -/
def candidates : List (IntWidth × Signedness) := s.suffix.candidates s.radix.isPrefixed

@[simp] theorem toList_text : s.text.toList = s.mark ++ s.digits ++ s.ending :=
  String.toList_ofList

private theorem detect_text : Radix.detect s.text.toList = s.radix := by
  rw [toList_text]
  obtain ⟨radix, mark, digits, values, suffix, ending, hmark, hnum, hending⟩ := s
  cases radix with
  | hex | binary => rcases hmark with rfl | rfl <;> rfl
  | decimal => exact Radix.detect_of_head?_ne (hmark.1 ▸ hmark.2)
  | octal =>
    obtain ⟨rfl, hhead⟩ := hmark
    obtain ⟨rest, htext⟩ := List.head?_eq_some_iff.mp hhead
    dsimp only at htext ⊢
    rw [htext]
    -- octal digits, separators and letters of a suffix are no letters of a mark
    have hletters : ∀ c ∈ [] ++ digits ++ ending, c ∉ ['x', 'X', 'b', 'B'] := by
      intro c hmem
      rcases List.mem_append.mp hmem with hmem | hmem
      · rcases hnum.forall_mem hmem with rfl | ⟨d, hdigit⟩
        · decide
        · exact hdigit.of_forall 8 (· ∉ ['x', 'X', 'b', 'B']) (by decide) le_rfl
      · have hletter := IntSuffix.isIntegerSuffixChar_of_mem hending hmem
        rintro hmark
        simp only [List.mem_cons, List.not_mem_nil, or_false] at hmark
        rcases hmark with rfl | rfl | rfl | rfl <;> exact absurd hletter (by decide)
    exact Radix.detect_zero fun c hmem ↦ hletters c (htext ▸ List.mem_cons_of_mem _ hmem)

theorem trailing_text : trailing Literal.isIntegerSuffixChar s.text.toList = s.ending := by
  rw [toList_text]
  refine trailing_append (fun hne ↦ ?_) fun c ↦ IntSuffix.isIntegerSuffixChar_of_mem s.ending_mem
  rw [List.getLast_append_of_ne_nil hne s.numeral.ne_nil]
  obtain ⟨d, hdigit⟩ := s.numeral.exists_getLast s.numeral.ne_nil
  exact hdigit.of_forall 16 (Literal.isIntegerSuffixChar · = false) (by decide) s.radix.value_le

variable (span : Span)

@[simp] theorem base_integer : (Literal.integer s.text span).base = some s.radix :=
  congrArg some s.detect_text

@[simp] theorem radix_integer : (Literal.integer s.text span).radix = s.radix := by
  rw [Literal.radix, base_integer, Option.getD_some]

@[simp] theorem suffix_integer :
    (Literal.integer s.text span).suffix = String.ofList s.ending :=
  congrArg String.ofList s.trailing_text

@[simp] theorem digits_integer : (Literal.integer s.text span).digits = s.digits := by
  have hbody : (Literal.integer s.text span).body? = some (s.mark ++ s.digits) := by
    rw [Literal.body?, suffix_integer, String.toList_ofList,
      show (Literal.integer s.text span).text.toList = _ from s.toList_text, dropEnding?_append]
  rw [Literal.digits, hbody, base_integer]
  exact s.isMark.dropBytes_append s.digits

end IntegerSpelling

/-! ## Reading a literal -/

namespace Literal

private theorem integerValue_cases (l : Literal) :
    (l.digits ≠ [] ∧ Scans l.radix.value l.digits ∧
        l.integerValue = .ok (accumulate? l.radix.value l.digits)) ∨
      ¬ (l.digits ≠ [] ∧ Scans l.radix.value l.digits) ∧
        ∃ fault, l.integerValue = .error fault ∧ fault.isOverflow = false := by
  rw [integerValue]
  by_cases hempty : l.digits = []
  · exact .inr ⟨fun hread ↦ hread.1 hempty, .missingDigits l.radix, by simp [hempty], rfl⟩
  by_cases hseparated : Digits.wellSeparated Char.isAlphanum l.digits = true
  · have hdigits : (∀ c ∈ l.digits, c = separator ∨ Digits.isDigitOf l.radix.value c = true) ↔
        (l.digits.dropWhile fun c ↦ c == separator || Digits.isDigitOf l.radix.value c) = [] := by
      simp [List.dropWhile_eq_nil_iff]
    rw [Scans, hdigits]
    rcases hfirst : l.digits.dropWhile fun c ↦
      c == separator || Digits.isDigitOf l.radix.value c with - | ⟨c, rest⟩
    · exact .inl ⟨hempty, ⟨hseparated, rfl⟩, by simp [hempty, hseparated]⟩
    · refine .inr ⟨fun hread ↦ List.cons_ne_nil c rest hread.2.2, ?_⟩
      by_cases hletters : (c :: rest).all Char.isAlpha = true
      · exact ⟨.invalidSuffix (String.ofList (c :: rest) ++ l.suffix),
          by simp only [hletters]; simp [hempty, hseparated], rfl⟩
      · exact ⟨.invalidDigit c l.radix, by simp only [hletters]; simp [hempty, hseparated], rfl⟩
  · exact .inr ⟨fun hread ↦ hseparated hread.2.1, .misplacedSeparator,
      by simp [hempty, hseparated], rfl⟩

private theorem read_integer (w : Widths) (text : String) (span : Span) :
    (integer text span).read w =
      ((integer text span).integerMeaning w).mapError fun fault ↦ ⟨span, fault⟩ := by
  obtain ⟨body, -, hbody⟩ := exists_body text span
  rw [read, meaning, hbody]
  rfl

end Literal

namespace IntegerSpelling

theorem integerValue_integer (s : IntegerSpelling) (span : Span) :
    (Literal.integer s.text span).integerValue = .ok (accumulated? s.value) := by
  have hscans : Scans s.radix.value s.digits := s.numeral.scans s.radix.value_le
  rcases Literal.integerValue_cases (Literal.integer s.text span) with ⟨-, -, hvalue⟩ | ⟨hfault, -⟩
  · rw [hvalue, radix_integer, digits_integer,
      s.numeral.accumulate?_eq s.radix.value_pos s.radix.value_le, value]
  · rw [radix_integer, digits_integer] at hfault
    exact absurd ⟨s.numeral.ne_nil, hscans⟩ hfault

private theorem exists_of_integerValue {text : String} {span : Span} {suffix : IntSuffix}
    {v : Option Nat}
    (hsuffix : IntSuffix.parse? (Literal.integer text span).suffix.toList = some suffix)
    (hvalue : (Literal.integer text span).integerValue = .ok v) :
    ∃ s : IntegerSpelling, s.text = text := by
  obtain ⟨body, htext, hbody⟩ := Literal.exists_body text span
  obtain ⟨mark, rest, hrest, hmark⟩ := Radix.exists_isMark text.toList
  have hending := IntSuffix.parse?_eq_some_iff.mp hsuffix
  -- the mark lies in front of the suffix, since the two share no letter
  obtain ⟨digits, rfl⟩ : ∃ digits, body = mark ++ digits := by
    rcases List.append_eq_append_iff.mp (htext.symm.trans hrest) with
      ⟨tail, rfl, hcut⟩ | ⟨digits, hdigits, -⟩
    · rcases tail with - | ⟨c, tail⟩
      · exact ⟨[], by simp⟩
      · have hletter := IntSuffix.isIntegerSuffixChar_of_mem hending (c := c) (by simp [hcut])
        have hno := hmark.not_isIntegerSuffixChar (c := c) (by simp)
        exact absurd hletter (by rw [hno]; exact Bool.false_ne_true)
    · exact ⟨digits, hdigits⟩
  have hradix : (Literal.integer text span).radix = Radix.detect text.toList := rfl
  have hdigits : (Literal.integer text span).digits = digits := by
    rw [Literal.digits, hbody]
    exact hmark.dropBytes_append digits
  rcases Literal.integerValue_cases (Literal.integer text span) with
    ⟨hne, hscans, -⟩ | ⟨-, fault, herror, -⟩
  · rw [hradix, hdigits] at hscans
    rw [hdigits] at hne
    obtain ⟨ds, hnum⟩ :=
      (Digits.exists_numeral_iff (Radix.detect text.toList).value_le).mpr ⟨hne, hscans⟩
    refine ⟨⟨_, mark, digits, ds, suffix, _, htext ▸ hmark, hnum, hending⟩, ?_⟩
    rw [IntegerSpelling.text, ← htext, String.ofList_toList]
  · rw [herror] at hvalue
    exact absurd hvalue (by simp)

/-- **Texts outside the grammar** have a fault that is not the size of a value. -/
theorem exists_or_exists_fault (w : Widths) (text : String) (span : Span) :
    (∃ s : IntegerSpelling, s.text = text) ∨
      ∃ fault, (Literal.integer text span).read w = .error ⟨span, fault⟩ ∧
        fault.isOverflow = false := by
  rw [Literal.read_integer, Literal.integerMeaning]
  rcases hsuffix : IntSuffix.parse? (Literal.integer text span).suffix.toList with - | suffix
  · exact .inr ⟨_, rfl, rfl⟩
  · rcases hvalue : (Literal.integer text span).integerValue with fault | v
    · rcases Literal.integerValue_cases (Literal.integer text span) with
        ⟨-, -, hok⟩ | ⟨-, fault', herror, hfault⟩
      · rw [hvalue] at hok
        exact absurd hok (by simp)
      · rw [hvalue] at herror
        obtain rfl : fault = fault' := Except.error.inj herror
        exact .inr ⟨fault, rfl, hfault⟩
    · exact .inl (exists_of_integerValue hsuffix hvalue)

section Supported

variable {w : Widths} (hw : w.Supported) (s : IntegerSpelling) (span : Span)

include hw

private theorem not_holds_of_accumulatorBound_le (hlarge : Digits.accumulatorBound ≤ s.value)
    (type : IntWidth × Signedness) : ¬ w.Holds type s.value := fun hholds ↦
  absurd hlarge (Nat.not_le.mpr ((hw.lt_of_holds hholds).trans (by decide)))

/-- **A spelling is read by its parts.** The accumulator loses no value that a candidate holds. -/
theorem read_text :
    (Literal.integer s.text span).read w =
      match w.firstToHold? s.candidates s.value with
      | some type => .ok ⟨.integer type.1 type.2, .int s.value, false⟩
      | none => .error ⟨span, .overflow s.text⟩ := by
  have hsuffix : IntSuffix.parse? (Literal.integer s.text span).suffix.toList = some s.suffix := by
    rw [suffix_integer, String.toList_ofList]
    exact IntSuffix.parse?_eq_some_iff.mpr s.ending_mem
  rw [Literal.read_integer, Literal.integerMeaning, hsuffix, integerValue_integer, accumulated?]
  split_ifs with hsmall
  · rw [radix_integer]
    dsimp only
    generalize hfind : List.find? _ _ = found
    obtain rfl : w.firstToHold? s.candidates s.value = found := hfind
    rcases w.firstToHold? s.candidates s.value with - | type <;> rfl
  · have hnone : w.firstToHold? s.candidates s.value = none :=
      Widths.firstToHold?_eq_none_iff.mpr fun type _ ↦
        s.not_holds_of_accumulatorBound_le hw (Nat.not_lt.mp hsmall) type
    rw [hnone]
    rfl

theorem read_text_eq_ok_iff {m : LiteralMeaning} :
    (Literal.integer s.text span).read w = .ok m ↔
      ∃ type, w.FirstToHold s.candidates s.value type ∧
        m = ⟨.integer type.1 type.2, .int s.value, false⟩ := by
  simp only [s.read_text hw, ← Widths.firstToHold?_eq_some_iff]
  rcases w.firstToHold? s.candidates s.value with - | type
  · simp
  · simp [eq_comm]

private theorem read_text_eq_overflow_iff :
    (Literal.integer s.text span).read w = .error ⟨span, .overflow s.text⟩ ↔
      ∀ type ∈ s.candidates, ¬ w.Holds type s.value := by
  rw [s.read_text hw, ← Widths.firstToHold?_eq_none_iff]
  rcases w.firstToHold? s.candidates s.value with - | type <;> simp

end Supported

end IntegerSpelling

/-- **Integer literals are read by their grammar and typed by the first candidate that holds them.**
A text is accepted, or found too large, exactly if it is a mark, a numeral and a suffix; then the
result is the first candidate type that holds the positional value of the digits, and the text is
too large exactly if no candidate holds that value, as for every value that outgrows the
accumulator. All other texts have a fault that is not about size. -/
theorem integer_read_by_grammar {w : Widths} (hw : w.Supported) (text : String) (span : Span) :
    (((∃ m, (Literal.integer text span).read w = .ok m) ∨
          (Literal.integer text span).read w = .error ⟨span, .overflow text⟩) ↔
        ∃ s : IntegerSpelling, s.text = text) ∧
      (∀ s : IntegerSpelling, s.text = text →
        (∀ m, (Literal.integer text span).read w = .ok m ↔
          ∃ type, w.FirstToHold s.candidates s.value type ∧
            m = ⟨.integer type.1 type.2, .int s.value, false⟩) ∧
        ((Literal.integer text span).read w = .error ⟨span, .overflow text⟩ ↔
          ∀ type ∈ s.candidates, ¬ w.Holds type s.value) ∧
        (Digits.accumulatorBound ≤ s.value →
          (Literal.integer text span).read w = .error ⟨span, .overflow text⟩)) ∧
      ((¬ ∃ s : IntegerSpelling, s.text = text) →
        ∃ fault, (Literal.integer text span).read w = .error ⟨span, fault⟩ ∧
          fault.isOverflow = false) := by
  refine ⟨⟨?_, ?_⟩, ?_, fun hno ↦ ?_⟩
  · intro hread
    rcases IntegerSpelling.exists_or_exists_fault w text span with hspelled | ⟨fault, hfault, hsize⟩
    · exact hspelled
    · rw [hfault] at hread
      rcases hread with ⟨m, hok⟩ | herror
      · exact absurd hok (by simp)
      · obtain rfl : fault = .overflow text := congrArg (·.fault) (Except.error.inj herror)
        exact absurd hsize (by simp [LiteralFault.isOverflow])
  · rintro ⟨s, rfl⟩
    rw [s.read_text hw]
    split
    · exact .inl ⟨_, rfl⟩
    · exact .inr rfl
  · rintro s rfl
    have hoverflow := s.read_text_eq_overflow_iff hw span
    exact ⟨fun m ↦ s.read_text_eq_ok_iff hw span, hoverflow, fun hlarge ↦
      hoverflow.mpr fun type _ ↦ s.not_holds_of_accumulatorBound_le hw hlarge type⟩
  · exact (IntegerSpelling.exists_or_exists_fault w text span).resolve_left hno

/-- With an `int` of eight bits, `0x8'0` does not fit the signed type and is unsigned. -/
theorem integer_read_by_grammar_unsigned :
    ({ int := 8, long := 16 } : Widths).Supported ∧
      (Literal.integer "0x8'0" Span.zero).read { int := 8, long := 16 } =
        .ok ⟨.integer .int .unsigned, .int 128, false⟩ := by
  have hw : ({ int := 8, long := 16 } : Widths).Supported := by decide
  let s : IntegerSpelling :=
    { radix := .hex, mark := ['0', 'x'], digits := ['8', separator, '0'], values := [8, 0],
      suffix := .none, ending := [], isMark := .inl rfl,
      numeral := .separated (by decide) (.single (by decide)), ending_mem := by decide }
  obtain ⟨-, hspelled, -⟩ := integer_read_by_grammar hw "0x8'0" Span.zero
  refine ⟨hw, ((hspelled s rfl).1 _).mpr ⟨(.int, .unsigned), ?_, rfl⟩⟩
  exact ⟨[(.int, .signed)], _, rfl, by decide, by decide⟩

end DeclAnalysis
