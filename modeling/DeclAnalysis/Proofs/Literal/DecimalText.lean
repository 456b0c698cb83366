import DeclAnalysis.Literal.Floating
import DeclAnalysis.Proofs.Literal.Numeral
import Mathlib.Data.List.TakeWhile

/-!
# Cutting decimal texts

A decimal text is cut at the first mark of an exponent, and what is in front of it at the first
point. `DecimalText.join` puts the parts together again, and the two are inverse to each other on
parts that hold no marks of their own (`cut_join`, `exists_join`).

Separators are looked at before the cut and removed before it. No separator has a mark for a
neighbour, so both can as well be done in each part on its own (`wellSeparated_join`,
`cut_dropSeparators`).
-/

namespace DeclAnalysis

open Digits (separator wellSeparated dropSeparators)

namespace Digits

/-! ## Decimal numerals -/

@[simp] theorem dropSeparators_nil : dropSeparators [] = [] := rfl

theorem dropSeparators_append (front back : List Char) :
    dropSeparators (front ++ back) = dropSeparators front ++ dropSeparators back :=
  List.filter_append ..

@[simp] theorem dropSeparators_separator (text : List Char) :
    dropSeparators (separator :: text) = dropSeparators text := rfl

theorem dropSeparators_cons {c : Char} (hne : c ≠ separator) (text : List Char) :
    dropSeparators (c :: text) = c :: dropSeparators text := by
  rw [dropSeparators, List.filter_cons, if_pos (bne_iff_ne.mpr hne), ← dropSeparators]

private theorem isDigitOf_ten (c : Char) : isDigitOf 10 c = c.isDigit := by
  rw [Bool.eq_iff_iff, isDigitOf_iff (by decide)]
  constructor
  · rintro ⟨digit, hdigit⟩
    exact hdigit.of_forall 10 (·.isDigit = true) (by decide) le_rfl
  · intro hdigit
    have hrange : 48 ≤ c.toNat ∧ c.toNat ≤ 57 := Char.isDigit_iff_toNat.mp hdigit
    have hrank : rank? c = some (c.toNat - 48) := if_pos hdigit
    refine ⟨c.toNat - 48, (value?_eq_some_iff (by decide)).mp ?_⟩
    rw [value?, hrank, Option.filter_some, if_pos (decide_eq_true (by omega))]

theorem dropSeparators_dropSeparators (text : List Char) :
    dropSeparators (dropSeparators text) = dropSeparators text := by
  simp [dropSeparators]

theorem wellSeparated_dropSeparators (p : Char → Bool) (text : List Char) :
    wellSeparated p (dropSeparators text) = true := by
  have hafter (before : Bool) : separatedAfter p before (dropSeparators text) = true := by
    induction text generalizing before with
    | nil => rfl
    | cons c rest ih =>
      by_cases hne : c = separator
      · rw [hne]
        exact ih before
      · simp [dropSeparators_cons hne, separatedAfter, hne, ih]
  exact hafter false

@[simp] theorem wellSeparated_nil (p : Char → Bool) : wellSeparated p [] = true := rfl

private theorem separatedAfter_congr {p q : Char → Bool} {text : List Char}
    (hsame : ∀ c ∈ text, p c = q c) (before : Bool) :
    separatedAfter p before text = separatedAfter q before text := by
  induction text generalizing before with
  | nil => rfl
  | cons c rest ih =>
    have hstart : startsWithDigit p rest = startsWithDigit q rest := by
      rcases rest with - | ⟨c', rest⟩
      · rfl
      · exact hsame c' (by simp)
    rw [separatedAfter, separatedAfter, hstart, hsame c List.mem_cons_self,
      ih fun c hmem ↦ hsame c (List.mem_cons_of_mem _ hmem)]

/-- **Decimal numerals**, as a floating literal is scanned for them. -/
theorem exists_decimal_iff {text : List Char} :
    (∃ ds, Numeral 10 text ds) ↔ text ≠ [] ∧ wellSeparated Char.isDigit text = true ∧
      (dropSeparators text).all Char.isDigit = true := by
  have hall : (dropSeparators text).all Char.isDigit = true ↔
      ∀ c ∈ text, c = separator ∨ isDigitOf 10 c = true := by
    simp only [dropSeparators, List.all_eq_true, List.mem_filter, bne_iff_ne, isDigitOf_ten]
    exact forall_congr' fun c ↦
      and_imp.trans (imp_congr_right fun _ ↦ or_iff_not_imp_left.symm)
  rw [exists_numeral_iff (by decide), Scans, hall]
  refine and_congr_right fun _ ↦ and_congr_left fun hdigits ↦ ?_
  rw [wellSeparated, wellSeparated, separatedAfter_congr fun c hmem ↦ ?_]
  rcases hdigits c hmem with rfl | hdigit
  · rfl
  · obtain ⟨d, hdigit⟩ := (isDigitOf_iff (by decide)).mp hdigit
    exact hdigit.of_forall 10 (fun c ↦ c.isAlphanum = c.isDigit) (by decide) le_rfl

namespace Numeral

variable {radix : Nat} {text : List Char} {ds : List Nat}

theorem dropSeparators (hradix : radix ≤ 16) (hnum : Numeral radix text ds) :
    Numeral radix (Digits.dropSeparators text) ds := by
  induction hnum with
  | single hdigit =>
    rw [dropSeparators_cons (hdigit.ne_separator hradix)]
    exact .single hdigit
  | next hdigit hrest ih | separated hdigit hrest ih =>
    rw [dropSeparators_cons (hdigit.ne_separator hradix)]
    exact .next hdigit ih

theorem length_dropSeparators (hradix : radix ≤ 16) (hnum : Numeral radix text ds) :
    (Digits.dropSeparators text).length = ds.length := by
  induction hnum with
  | single hdigit =>
    rw [dropSeparators_cons (hdigit.ne_separator hradix)]
    rfl
  | next hdigit hrest ih | separated hdigit hrest ih =>
    rw [dropSeparators_cons (hdigit.ne_separator hradix)]
    exact congrArg (· + 1) ih

end Numeral

/-! ## Separators next to a mark -/

private theorem separatedAfter_append_cons {p : Char → Bool} {mark : Char} (hmark : p mark = false)
    (hne : mark ≠ separator) (front back : List Char) (before : Bool) :
    separatedAfter p before (front ++ mark :: back) =
      (separatedAfter p before front && separatedAfter p false back) := by
  induction front generalizing before with
  | nil => simp [separatedAfter, hmark, hne]
  | cons c rest ih =>
    have hstart : startsWithDigit p (rest ++ mark :: back) = startsWithDigit p rest := by
      rcases rest with - | ⟨c', rest⟩
      · exact hmark
      · rfl
    rw [List.cons_append, separatedAfter, separatedAfter, hstart, ih, Bool.and_assoc]

end Digits

namespace DecimalText

/-! ## Parts behind marks -/

/-- A part behind its mark, if the part is there. -/
def behind (mark : Char) : Option (List Char) → List Char
  | none => []
  | some part => mark :: part

@[simp] theorem afterMark_behind (mark : Char) (part : Option (List Char)) :
    afterMark (behind mark part) = part := by
  rcases part with - | part <;> rfl

theorem mem_behind {mark c : Char} {part : Option (List Char)} (hmem : c ∈ behind mark part) :
    c = mark ∨ c ∈ part.getD [] := by
  rcases part with - | part
  · cases hmem
  · exact List.mem_cons.mp hmem

section Cut

variable {p : Char → Bool} {front : List Char} {mark : Char}

private theorem takeWhile_behind (hfront : ∀ c ∈ front, p c = true) (hmark : p mark = false)
    (part : Option (List Char)) : (front ++ behind mark part).takeWhile p = front := by
  rw [List.takeWhile_append_of_pos hfront]
  rcases part with - | part <;> simp [behind, hmark]

private theorem dropWhile_behind (hfront : ∀ c ∈ front, p c = true) (hmark : p mark = false)
    (part : Option (List Char)) :
    (front ++ behind mark part).dropWhile p = behind mark part := by
  rw [List.dropWhile_append_of_pos hfront]
  rcases part with - | part <;> simp [behind, hmark]

private theorem exists_behind {p : Char → Bool} (hstops : ∃ mark, p mark = false)
    (text : List Char) :
    ∃ mark, p mark = false ∧ text.dropWhile p = behind mark (afterMark (text.dropWhile p)) := by
  rcases hrest : text.dropWhile p with - | ⟨c, rest⟩
  · obtain ⟨mark, hmark⟩ := hstops
    exact ⟨mark, hmark, rfl⟩
  · refine ⟨c, ?_, rfl⟩
    have hhead := List.head?_dropWhile_not p text
    rwa [hrest] at hhead

end Cut

private theorem wellSeparated_behind {mark : Char} (hmark : mark.isDigit = false)
    (hne : mark ≠ separator) (front : List Char) (part : Option (List Char)) :
    wellSeparated Char.isDigit (front ++ behind mark part) =
      (wellSeparated Char.isDigit front && wellSeparated Char.isDigit (part.getD [])) := by
  rcases part with - | part
  · simp [behind]
  · exact Digits.separatedAfter_append_cons hmark hne ..

private theorem dropSeparators_behind {mark : Char} (hne : mark ≠ separator)
    (part : Option (List Char)) :
    dropSeparators (behind mark part) = behind mark (part.map dropSeparators) := by
  rcases part with - | part
  · rfl
  · exact Digits.dropSeparators_cons hne part

/-! ## Cutting and joining -/

/-- The parts put together, with the given mark for the exponent. -/
def join (mark : Char) (d : DecimalText) : List Char :=
  d.whole ++ behind '.' d.fraction ++ behind mark d.exponent

/-- Parts that the marks do not cut. -/
structure Uncut (d : DecimalText) : Prop where
  whole : ∀ c ∈ d.whole, isExponentMark c = false ∧ c ≠ '.'
  fraction : ∀ c ∈ d.fraction.getD [], isExponentMark c = false

theorem isExponentMark_iff {c : Char} : isExponentMark c = true ↔ c = 'e' ∨ c = 'E' := by
  simp [isExponentMark]

variable {mark : Char} {d : DecimalText}

theorem Uncut.mantissa (hd : d.Uncut) :
    ∀ c ∈ d.whole ++ behind '.' d.fraction, (!isExponentMark c) = true := by
  intro c hmem
  rw [Bool.not_eq_true']
  rcases List.mem_append.mp hmem with hmem | hmem
  · exact (hd.whole c hmem).1
  · rcases mem_behind hmem with rfl | hmem
    · rfl
    · exact hd.fraction c hmem

/-- **Cutting undoes joining.** -/
theorem cut_join (hmark : isExponentMark mark = true) (hd : d.Uncut) : cut (d.join mark) = d := by
  have hstop : (!isExponentMark mark) = false := by rw [hmark]; rfl
  have hwhole : ∀ c ∈ d.whole, (c != '.') = true := fun c hmem ↦ bne_iff_ne.mpr (hd.whole c hmem).2
  rw [cut, join, takeWhile_behind hd.mantissa hstop, dropWhile_behind hd.mantissa hstop,
    takeWhile_behind hwhole rfl, dropWhile_behind hwhole rfl, afterMark_behind, afterMark_behind]

private theorem mem_of_mem_afterMark {text : List Char} {c : Char}
    (hmem : c ∈ (afterMark text).getD []) : c ∈ text := by
  rcases text with - | ⟨mark, rest⟩
  · cases hmem
  · exact List.mem_cons_of_mem mark hmem

private theorem uncut_cut (text : List Char) : (cut text).Uncut where
  whole c hmem := by
    have hfront := List.mem_takeWhile_imp ((List.takeWhile_sublist _).subset hmem)
    have hpoint := List.mem_takeWhile_imp (p := (· != '.')) hmem
    exact ⟨Bool.not_eq_true' _ ▸ hfront, bne_iff_ne.mp hpoint⟩
  fraction c hmem := by
    have hfront := List.mem_takeWhile_imp
      ((List.dropWhile_sublist _).subset (mem_of_mem_afterMark hmem))
    exact Bool.not_eq_true' _ ▸ hfront

/-- **Joining undoes cutting**, with one of the marks. -/
theorem exists_join (text : List Char) :
    ∃ mark, isExponentMark mark = true ∧ (cut text).join mark = text := by
  let mantissa := text.takeWhile fun c ↦ !isExponentMark c
  obtain ⟨mark, hmark, hexponent⟩ :=
    exists_behind (p := fun c ↦ !isExponentMark c) ⟨'e', rfl⟩ text
  obtain ⟨point, hpoint, hfraction⟩ := exists_behind (p := (· != '.')) ⟨'.', rfl⟩ mantissa
  obtain rfl : point = '.' := bne_eq_false_iff_eq.mp hpoint
  refine ⟨mark, Bool.not_eq_false' _ ▸ hmark, ?_⟩
  calc (cut text).join mark
      = mantissa.takeWhile (· != '.') ++ mantissa.dropWhile (· != '.') ++
          text.dropWhile fun c ↦ !isExponentMark c := by rw [hfraction, hexponent]; rfl
    _ = text := by rw [List.takeWhile_append_dropWhile, List.takeWhile_append_dropWhile]

/-! ## Separators in the parts -/

theorem getD_map_dropSeparators (part : Option (List Char)) :
    (part.map dropSeparators).getD [] = dropSeparators (part.getD []) := by
  rcases part with - | part <;> rfl

/-- Every part without its separators. -/
def plain (d : DecimalText) : DecimalText where
  whole := dropSeparators d.whole
  fraction := d.fraction.map dropSeparators
  exponent := d.exponent.map dropSeparators

private theorem not_isDigit_of_isExponentMark (hmark : isExponentMark mark = true) :
    mark.isDigit = false ∧ mark ≠ separator := by
  rcases isExponentMark_iff.mp hmark with rfl | rfl <;> decide

theorem wellSeparated_join (hmark : isExponentMark mark = true) (d : DecimalText) :
    wellSeparated Char.isDigit (d.join mark) =
      (wellSeparated Char.isDigit d.whole && wellSeparated Char.isDigit (d.fraction.getD []) &&
        wellSeparated Char.isDigit (d.exponent.getD [])) := by
  obtain ⟨hdigit, hne⟩ := not_isDigit_of_isExponentMark hmark
  rw [join, wellSeparated_behind hdigit hne, wellSeparated_behind rfl (by decide)]

private theorem dropSeparators_join (hmark : isExponentMark mark = true) (d : DecimalText) :
    dropSeparators (d.join mark) = d.plain.join mark := by
  rw [join, join, Digits.dropSeparators_append, Digits.dropSeparators_append,
    dropSeparators_behind (not_isDigit_of_isExponentMark hmark).2,
    dropSeparators_behind (by decide)]
  rfl

theorem Uncut.plain (hd : d.Uncut) : d.plain.Uncut where
  whole c hmem := hd.whole c ((List.mem_filter.mp hmem).1)
  fraction c hmem := by
    obtain ⟨whole, - | fraction, exponent⟩ := d
    · cases hmem
    · exact hd.fraction c ((List.mem_filter.mp hmem).1)

/-- **Separators can be removed after the cut.** -/
theorem cut_dropSeparators (text : List Char) : cut (dropSeparators text) = (cut text).plain := by
  obtain ⟨mark, hmark, htext⟩ := exists_join text
  conv_lhs => rw [← htext, dropSeparators_join hmark]
  exact cut_join hmark (uncut_cut text).plain

end DecimalText

end DeclAnalysis
