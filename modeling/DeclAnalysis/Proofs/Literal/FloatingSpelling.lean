import DeclAnalysis.Proofs.Literal.DecimalNumber
import DeclAnalysis.Proofs.Literal.IntegerSpelling

/-!
# The grammar of floating literals

A floating literal is a decimal number and a suffix. `FloatingSpelling` holds the two, with the
proof that the suffix is one of those of the precision.

Before the number is read, a text is looked at from both ends: it must not start as a hexadecimal
number does, and the letters at its end are taken for the suffix. A number has no letters but the
mark of its exponent, so what is found at the end of a spelling is its suffix, and no spelling is
taken for a hexadecimal number (`trailing_text`, `startsHex_text`).
-/

namespace DeclAnalysis

open Digits (separator dropSeparators)

/-! ## Suffixes -/

namespace Precision

/-- The suffixes that select a precision. -/
def spellings : Precision → List (List Char)
  | .double => [[]]
  | .float => [['f'], ['F']]
  | .longDouble => [['l'], ['L']]

private theorem ofSuffix?_eq_some_iff {text : List Char} {precision : Precision} :
    ofSuffix? text = some precision ↔ text ∈ precision.spellings := by
  constructor
  · intro hsuffix
    rw [ofSuffix?.eq_def] at hsuffix
    split at hsuffix <;> cases hsuffix <;> decide
  · revert text
    cases precision <;> decide

private theorem of_mem_ending {P : Char → Prop} (hletters : P 'f' ∧ P 'F' ∧ P 'l' ∧ P 'L')
    {precision : Precision} {ending : List Char} (hending : ending ∈ precision.spellings) {c : Char}
    (hmem : c ∈ ending) : P c := by
  obtain ⟨hf, hF, hl, hL⟩ := hletters
  cases precision with
  | double =>
    rw [List.mem_singleton.mp hending] at hmem
    cases hmem
  | float =>
    rcases List.mem_pair.mp hending with rfl | rfl
    · exact List.mem_singleton.mp hmem ▸ hf
    · exact List.mem_singleton.mp hmem ▸ hF
  | longDouble =>
    rcases List.mem_pair.mp hending with rfl | rfl
    · exact List.mem_singleton.mp hmem ▸ hl
    · exact List.mem_singleton.mp hmem ▸ hL

end Precision

/-! ## Spellings -/

/-- A floating literal by its parts: a decimal number and a suffix. -/
structure FloatingSpelling where
  /-- The number. -/
  number : DecimalNumber
  /-- The precision. -/
  precision : Precision
  /-- The suffix as it is written. -/
  ending : List Char
  ending_mem : ending ∈ precision.spellings

/-- The parts put together. -/
def FloatingSpelling.text (s : FloatingSpelling) : String :=
  String.ofList (s.number.text ++ s.ending)

/-- The value of the literal in its precision. -/
def FloatingSpelling.value (s : FloatingSpelling) : Binary64 :=
  s.precision.round s.number.value

/-! ## Reading a literal -/

namespace Literal

private theorem startsHex_eq_false {text : List Char} (hletters : ∀ c ∈ text, c ≠ 'x' ∧ c ≠ 'X') :
    startsHex text = false := by
  rw [startsHex.eq_def]
  split
  · exact absurd rfl (hletters 'x' (by simp)).1
  · exact absurd rfl (hletters 'X' (by simp)).2
  · rfl

private theorem read_floating (w : Widths) (text : String) (span : Span) :
    (floating text span).read w =
      (floating text span).floatingMeaning.mapError fun fault ↦ ⟨span, fault⟩ := by
  obtain ⟨body, -, hbody⟩ := exists_body_of_trailing (l := floating text span) rfl
  rw [read, meaning, hbody]
  rfl

end Literal

namespace FloatingSpelling

variable (s : FloatingSpelling)

@[simp] theorem toList_text : s.text.toList = s.number.text ++ s.ending := String.toList_ofList

theorem trailing_text : trailing Literal.isFloatingSuffixChar s.text.toList = s.ending := by
  rw [toList_text]
  refine trailing_append (fun hne ↦ ?_) fun c hmem ↦ ?_
  · exact s.number.not_isFloatingSuffixChar (List.getLast_mem hne)
  · exact Precision.of_mem_ending (P := (Literal.isFloatingSuffixChar · = true)) (by decide)
      s.ending_mem hmem

private theorem startsHex_text : Literal.startsHex s.text.toList = false := by
  refine Literal.startsHex_eq_false fun c hmem ↦ ?_
  rw [toList_text] at hmem
  rcases List.mem_append.mp hmem with hmem | hmem
  · exact s.number.of_mem_text (P := fun c ↦ c ≠ 'x' ∧ c ≠ 'X') (by decide) (by decide) (by decide)
      (by decide) (by decide) hmem
  · exact Precision.of_mem_ending (P := fun c ↦ c ≠ 'x' ∧ c ≠ 'X') (by decide) s.ending_mem hmem

/-- **A spelling is read by its parts.** -/
theorem read_text (w : Widths) (span : Span) :
    (Literal.floating s.text span).read w =
      if s.value.isFinite then .ok ⟨.floating s.precision, .float s.value, false⟩
      else .error ⟨span, .overflow s.text⟩ := by
  have hsuffix : (Literal.floating s.text span).suffix.toList = s.ending := by
    rw [Literal.floating, String.toList_ofList, trailing_text]
  have hbody : (Literal.floating s.text span).body? = some s.number.text := by
    rw [Literal.body?, hsuffix, show (Literal.floating s.text span).text.toList = _ from
      s.toList_text, dropEnding?_append]
  have hhex : Literal.startsHex (Literal.floating s.text span).text.toList = false :=
    s.startsHex_text
  rw [Literal.read_floating, Literal.floatingMeaning, hhex, hsuffix,
    Precision.ofSuffix?_eq_some_iff.mpr s.ending_mem, hbody, value]
  dsimp only
  rw [s.number.floatingValue_text]
  dsimp only
  by_cases hfinite : (s.precision.round s.number.value).isFinite = true
  · rw [if_pos hfinite, if_pos hfinite]
    rfl
  · rw [if_neg hfinite, if_neg hfinite]
    rfl

/-- **Texts outside the grammar** have a fault that is not the size of a value. -/
theorem exists_or_exists_fault (w : Widths) (text : String) (span : Span) :
    (∃ s : FloatingSpelling, s.text = text) ∨
      ∃ fault, (Literal.floating text span).read w = .error ⟨span, fault⟩ ∧
        fault.isOverflow = false := by
  obtain ⟨body, htext, hbody⟩ :=
    Literal.exists_body_of_trailing (l := Literal.floating text span) rfl
  rw [Literal.read_floating, Literal.floatingMeaning]
  split_ifs with hhex
  · exact .inr ⟨_, rfl, rfl⟩
  rcases hprecision : Precision.ofSuffix? (Literal.floating text span).suffix.toList with
    - | precision
  · exact .inr ⟨_, rfl, rfl⟩
  rw [hbody]
  dsimp only
  rcases hvalue : Literal.floatingValue body with fault | v
  · exact .inr ⟨fault, rfl, Literal.isOverflow_of_floatingValue hvalue⟩
  · obtain ⟨n, rfl, -⟩ := Literal.floatingValue_eq_ok_iff.mp hvalue
    refine .inl ⟨⟨n, precision, _, Precision.ofSuffix?_eq_some_iff.mp hprecision⟩, ?_⟩
    rw [FloatingSpelling.text, ← htext]
    exact String.ofList_toList

theorem exists_plain : ∃ s' : FloatingSpelling,
    s'.text = String.ofList (dropSeparators s.text.toList) ∧ s'.precision = s.precision ∧
      s'.value = s.value := by
  obtain ⟨n, htext, hvalue⟩ := s.number.exists_plain
  have hending : dropSeparators s.ending = s.ending := by
    refine List.filter_eq_self.mpr fun c hmem ↦ bne_iff_ne.mpr ?_
    exact Precision.of_mem_ending (P := (· ≠ separator)) (by decide) s.ending_mem hmem
  refine ⟨⟨n, s.precision, s.ending, s.ending_mem⟩, ?_, rfl, congrArg s.precision.round hvalue⟩
  rw [toList_text, Digits.dropSeparators_append, hending, ← htext]
  rfl

end FloatingSpelling

/-- **Floating literals are read by their grammar.** A text is accepted, or found too large, exactly
if it is a decimal number, with a point or an exponent, and a suffix. The suffix alone selects the
precision, and the value is the nearest one in that precision; the text is too large exactly if
that is not finite. Separators in their places make no difference. All other texts have a fault
that is not about size. -/
theorem floating_read_by_grammar (w : Widths) (text : String) (span : Span) :
    (((∃ m, (Literal.floating text span).read w = .ok m) ∨
          (Literal.floating text span).read w = .error ⟨span, .overflow text⟩) ↔
        ∃ s : FloatingSpelling, s.text = text) ∧
      (∀ s : FloatingSpelling, s.text = text →
        (Literal.floating text span).read w =
          if s.value.isFinite then .ok ⟨.floating s.precision, .float s.value, false⟩
          else .error ⟨span, .overflow text⟩) ∧
      ((∃ s : FloatingSpelling, s.text = text) →
        let plain := String.ofList (dropSeparators text.toList)
        (∀ m, (Literal.floating text span).read w = .ok m ↔
          (Literal.floating plain span).read w = .ok m) ∧
        ((Literal.floating text span).read w = .error ⟨span, .overflow text⟩ ↔
          (Literal.floating plain span).read w = .error ⟨span, .overflow plain⟩)) ∧
      ((¬ ∃ s : FloatingSpelling, s.text = text) →
        ∃ fault, (Literal.floating text span).read w = .error ⟨span, fault⟩ ∧
          fault.isOverflow = false) := by
  refine ⟨⟨?_, ?_⟩, ?_, ?_, fun hno ↦ ?_⟩
  · intro hread
    rcases FloatingSpelling.exists_or_exists_fault w text span with
      hspelled | ⟨fault, hfault, hsize⟩
    · exact hspelled
    · rw [hfault] at hread
      rcases hread with ⟨m, hok⟩ | herror
      · cases hok
      · obtain rfl : fault = .overflow text := congrArg (·.fault) (Except.error.inj herror)
        cases hsize
  · rintro ⟨s, rfl⟩
    rw [s.read_text]
    split_ifs
    · exact .inl ⟨_, rfl⟩
    · exact .inr rfl
  · rintro s rfl
    exact s.read_text w span
  · rintro ⟨s, rfl⟩ plain
    obtain ⟨s', htext, hprecision, hvalue⟩ := s.exists_plain
    rw [show plain = s'.text from htext.symm, s.read_text, s'.read_text, hprecision, hvalue]
    split_ifs
    · exact ⟨fun m ↦ Iff.rfl, nofun, nofun⟩
    · exact ⟨fun m ↦ ⟨nofun, nofun⟩, fun _ ↦ rfl, fun _ ↦ rfl⟩
  · exact (FloatingSpelling.exists_or_exists_fault w text span).resolve_left hno

/-- `1'2.5e-1F` is the single `1.25`. -/
theorem floating_read_by_grammar_single :
    (Literal.floating "1'2.5e-1F" Span.zero).read {} =
      .ok ⟨.floating .float, .float ⟨0x3FF4000000000000⟩, false⟩ := by
  let whole : DigitRun :=
    ⟨['1', separator, '2'], [1, 2], .separated (by decide) (.single (by decide))⟩
  let fraction : DigitRun := ⟨['5'], [5], .single (by decide)⟩
  let power : ExponentPart := ⟨'e', .minus, ⟨['1'], [1], .single (by decide)⟩, .inl rfl⟩
  let s : FloatingSpelling :=
    { number := ⟨.digitsPointDigits whole fraction, some power, .inr rfl⟩
      precision := .float
      ending := ['F']
      ending_mem := by decide }
  have hvalue : s.value = ⟨0x3FF4000000000000⟩ := by decide +kernel
  obtain ⟨-, hread, -⟩ := floating_read_by_grammar {} "1'2.5e-1F" Span.zero
  rw [hread s rfl, hvalue]
  rfl

end DeclAnalysis
