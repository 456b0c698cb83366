import DeclAnalysis.Literal.Digits
import Mathlib.Data.List.Induction
import Mathlib.Data.Nat.Digits.Defs
import Mathlib.Tactic.IntervalCases

/-!
# Numerals

A numeral is a nonempty sequence of digits of a base in which single separators may stand between
two digits. `Numeral` gives this grammar one character at a time. A text is scanned differently: one
pass looks at the neighbours of the separators, and takes every letter and digit for a neighbour
that will do, and another pass looks for characters that are neither digits nor separators.
`exists_numeral_iff` says that both passes together accept exactly the numerals.

The value of a numeral is the positional value of its digits, `Nat.ofDigits`. The accumulator
multiplies and adds with a check at every step, and a value that was lost does not come back: what
is left at the end is the positional value, if that is below the bound (`Numeral.accumulate?_eq`).
-/

namespace DeclAnalysis.Digits

/-! ## Digits -/

/-- A character stands for a digit of a base. The digits from ten on are letters of either case. -/
def IsDigit (radix digit : Nat) (c : Char) : Prop :=
  digit < radix ∧ (c = digit.digitChar ∨ c = digit.digitChar.toUpper)

instance (radix digit : Nat) (c : Char) : Decidable (IsDigit radix digit c) :=
  inferInstanceAs (Decidable (_ ∧ _))

theorem code_of_rank? {c : Char} {digit : Nat} (hrank : rank? c = some digit) :
    c.toNat = digit + 48 ∧ digit < 10 ∨
      10 ≤ digit ∧ (c.toNat = digit + 87 ∨ c.toNat = digit + 55) := by
  rw [rank?] at hrank
  split_ifs at hrank with hdecimal hlower hupper <;> rw [Option.some.injEq] at hrank
  · have hrange : 48 ≤ c.toNat ∧ c.toNat ≤ 57 := Char.isDigit_iff_toNat.mp hdecimal
    omega
  · obtain ⟨hfrom, hto⟩ := Bool.and_eq_true_iff.mp hlower
    have hrange : 97 ≤ c.toNat ∧ c.toNat ≤ 122 := ⟨of_decide_eq_true hfrom, of_decide_eq_true hto⟩
    omega
  · have hrange : 65 ≤ c.toNat ∧ c.toNat ≤ 90 :=
      of_decide_eq_true (p := c.val ≥ 'A'.val ∧ c.val ≤ 'Z'.val) hupper
    omega

theorem rank?_eq_some_iff {c : Char} {digit : Nat} (hdigit : digit < 16) :
    rank? c = some digit ↔ c = digit.digitChar ∨ c = digit.digitChar.toUpper := by
  constructor
  · intro hrank
    rw [← Char.ofNat_toNat c]
    rcases code_of_rank? hrank with ⟨hcode, _⟩ | ⟨_, hcode | hcode⟩ <;> rw [hcode] <;>
      interval_cases digit <;> decide
  · rintro (rfl | rfl) <;> interval_cases digit <;> rfl

/-- Up to base sixteen, the digits that are read are the digits. -/
theorem value?_eq_some_iff {radix digit : Nat} {c : Char} (hradix : radix ≤ 16) :
    value? radix c = some digit ↔ IsDigit radix digit c := by
  rw [value?, Option.filter_eq_some_iff, decide_eq_true_iff, and_comm, IsDigit]
  exact and_congr_right fun hlt ↦ rank?_eq_some_iff (hlt.trans_le hradix)

theorem isDigitOf_iff {radix : Nat} {c : Char} (hradix : radix ≤ 16) :
    isDigitOf radix c = true ↔ ∃ digit, IsDigit radix digit c := by
  rw [isDigitOf, Option.isSome_iff_exists]
  exact exists_congr fun digit ↦ value?_eq_some_iff hradix

namespace IsDigit

variable {radix digit : Nat} {c : Char}

/-- What holds of the characters of all digits below a bound holds of the digits of every base up to
that bound. -/
theorem of_forall (bound : Nat) (P : Char → Prop)
    (hall : ∀ digit < bound, P digit.digitChar ∧ P digit.digitChar.toUpper)
    (hradix : radix ≤ bound) (hdigit : IsDigit radix digit c) : P c := by
  obtain ⟨hlt, rfl | rfl⟩ := hdigit
  · exact (hall digit (hlt.trans_le hradix)).1
  · exact (hall digit (hlt.trans_le hradix)).2

theorem isAlphanum (hradix : radix ≤ 16) (hdigit : IsDigit radix digit c) :
    c.isAlphanum = true :=
  hdigit.of_forall 16 (·.isAlphanum = true) (by decide) hradix

theorem ne_separator (hradix : radix ≤ 16) (hdigit : IsDigit radix digit c) : c ≠ separator :=
  hdigit.of_forall 16 (· ≠ separator) (by decide) hradix

end IsDigit

/-! ## The grammar of numerals -/

/-- The numerals of a base, with the values of their digits, most significant first: at least one
digit, and single separators between two digits. -/
inductive Numeral (radix : Nat) : List Char → List Nat → Prop where
  | single {c : Char} {d : Nat} (hdigit : IsDigit radix d c) : Numeral radix [c] [d]
  | next {c : Char} {d : Nat} {text : List Char} {ds : List Nat} (hdigit : IsDigit radix d c)
      (hrest : Numeral radix text ds) : Numeral radix (c :: text) (d :: ds)
  | separated {c : Char} {d : Nat} {text : List Char} {ds : List Nat} (hdigit : IsDigit radix d c)
      (hrest : Numeral radix text ds) : Numeral radix (c :: separator :: text) (d :: ds)

/-- A text as the two passes see it: its separators have neighbours, and its other characters are
digits of the base. -/
def Scans (radix : Nat) (text : List Char) : Prop :=
  wellSeparated Char.isAlphanum text = true ∧
    ∀ c ∈ text, c = separator ∨ isDigitOf radix c = true

namespace Numeral

variable {radix : Nat} {text : List Char} {ds : List Nat}

theorem exists_cons (hnum : Numeral radix text ds) :
    ∃ c rest d others, text = c :: rest ∧ ds = d :: others ∧ IsDigit radix d c := by
  rcases hnum with hdigit | hdigit | hdigit <;> exact ⟨_, _, _, _, rfl, rfl, hdigit⟩

theorem ne_nil (hnum : Numeral radix text ds) : text ≠ [] := by
  obtain ⟨c, rest, d, others, rfl, -, -⟩ := hnum.exists_cons
  exact List.cons_ne_nil c rest

theorem exists_getLast (hnum : Numeral radix text ds) (hne : text ≠ []) :
    ∃ d, IsDigit radix d (text.getLast hne) := by
  induction hnum with
  | single hdigit => exact ⟨_, hdigit⟩
  | next hdigit hrest ih =>
    rw [List.getLast_cons hrest.ne_nil]
    exact ih hrest.ne_nil
  | separated hdigit hrest ih =>
    rw [List.getLast_cons (List.cons_ne_nil _ _), List.getLast_cons hrest.ne_nil]
    exact ih hrest.ne_nil

theorem startsWithDigit (hradix : radix ≤ 16) (hnum : Numeral radix text ds) :
    Digits.startsWithDigit Char.isAlphanum text = true := by
  obtain ⟨c, rest, d, others, rfl, -, hdigit⟩ := hnum.exists_cons
  exact hdigit.isAlphanum hradix

theorem separatedAfter (hradix : radix ≤ 16) (hnum : Numeral radix text ds) (before : Bool) :
    Digits.separatedAfter Char.isAlphanum before text = true := by
  induction hnum generalizing before with
  | single hdigit => simp [Digits.separatedAfter, hdigit.ne_separator hradix]
  | next hdigit hrest ih => simp [Digits.separatedAfter, hdigit.ne_separator hradix, ih]
  | separated hdigit hrest ih =>
    simp [Digits.separatedAfter, hdigit.ne_separator hradix, hdigit.isAlphanum hradix,
      hrest.startsWithDigit hradix, ih]

theorem filterMap_value? (hradix : radix ≤ 16) (hnum : Numeral radix text ds) :
    text.filterMap (value? radix) = ds := by
  have hvalue {c : Char} {d : Nat} (hdigit : IsDigit radix d c) : value? radix c = some d :=
    (value?_eq_some_iff hradix).mpr hdigit
  have hseparator : value? radix separator = none := rfl
  induction hnum with
  | single hdigit => rw [List.filterMap_cons_some (hvalue hdigit), List.filterMap_nil]
  | next hdigit hrest ih => rw [List.filterMap_cons_some (hvalue hdigit), ih]
  | separated hdigit hrest ih =>
    rw [List.filterMap_cons_some (hvalue hdigit), List.filterMap_cons_none hseparator, ih]

theorem forall_mem (hnum : Numeral radix text ds) {c : Char} (hmem : c ∈ text) :
    c = separator ∨ ∃ d, IsDigit radix d c := by
  induction hnum with
  | single hdigit =>
    rw [List.mem_singleton.mp hmem]
    exact .inr ⟨_, hdigit⟩
  | next hdigit hrest ih =>
    rcases List.mem_cons.mp hmem with rfl | hmem
    · exact .inr ⟨_, hdigit⟩
    · exact ih hmem
  | separated hdigit hrest ih =>
    rcases List.mem_cons.mp hmem with rfl | hmem
    · exact .inr ⟨_, hdigit⟩
    · exact (List.mem_cons.mp hmem).imp id ih |>.elim .inl id

theorem scans (hradix : radix ≤ 16) (hnum : Numeral radix text ds) : Scans radix text :=
  ⟨hnum.separatedAfter hradix false,
    fun _ hmem ↦ (hnum.forall_mem hmem).imp_right (isDigitOf_iff hradix).mpr⟩

end Numeral

/-- What a scan that has met some digits or none still accepts: nothing more, a numeral, or, after a
digit, a separator and a numeral. -/
theorem exists_numeral_of_separatedAfter {radix : Nat} (hradix : radix ≤ 16) {text : List Char}
    (hdigits : ∀ c ∈ text, c = separator ∨ isDigitOf radix c = true) {before : Bool}
    (hseparated : separatedAfter Char.isAlphanum before text = true) :
    text = [] ∨ (∃ ds, Numeral radix text ds) ∨
      before = true ∧ ∃ rest ds, text = separator :: rest ∧ Numeral radix rest ds := by
  induction text generalizing before with
  | nil => exact .inl rfl
  | cons c rest ih =>
    rw [separatedAfter, Bool.and_eq_true] at hseparated
    obtain ⟨hneighbours, hrest⟩ := hseparated
    have hlater := ih (fun c hmem ↦ hdigits c (List.mem_cons_of_mem _ hmem)) hrest
    rcases hdigits c List.mem_cons_self with rfl | hdigit
    · -- a separator needs a digit on either side, so that what follows is a numeral
      have hboth : before = true ∧ startsWithDigit Char.isAlphanum rest = true := by
        simpa using hneighbours
      rcases hlater with rfl | ⟨ds, hnum⟩ | ⟨hseparator, -⟩
      · exact absurd hboth.2 (by simp [startsWithDigit])
      · exact .inr (.inr ⟨hboth.1, rest, ds, rfl, hnum⟩)
      · exact absurd hseparator (by decide)
    · obtain ⟨d, hdigit⟩ := (isDigitOf_iff hradix).mp hdigit
      refine .inr (.inl ?_)
      rcases hlater with rfl | ⟨ds, hnum⟩ | ⟨-, rest, ds, rfl, hnum⟩
      · exact ⟨[d], .single hdigit⟩
      · exact ⟨d :: ds, .next hdigit hnum⟩
      · exact ⟨d :: ds, .separated hdigit hnum⟩

/-- **The two passes accept exactly the numerals**, the empty text aside. -/
theorem exists_numeral_iff {radix : Nat} (hradix : radix ≤ 16) {text : List Char} :
    (∃ ds, Numeral radix text ds) ↔ text ≠ [] ∧ Scans radix text := by
  constructor
  · rintro ⟨ds, hnum⟩
    exact ⟨hnum.ne_nil, hnum.scans hradix⟩
  · rintro ⟨hne, hseparated, hdigits⟩
    rcases exists_numeral_of_separatedAfter hradix hdigits hseparated with hnil | hnum | ⟨hno, -⟩
    · exact absurd hnil hne
    · exact hnum
    · exact absurd hno Bool.false_ne_true

/-! ## The value of a numeral -/

theorem foldl_eq_ofDigits (radix : Nat) (ds : List Nat) :
    ds.foldl (fun n d ↦ n * radix + d) 0 = Nat.ofDigits radix ds.reverse := by
  induction ds using List.reverseRecOn with
  | nil => rfl
  | append_singleton ds d ih =>
    rw [List.foldl_append, ih, List.reverse_append, List.reverse_singleton, List.singleton_append,
      Nat.ofDigits_cons, List.foldl_cons, List.foldl_nil, Nat.mul_comm, Nat.add_comm]

theorem pushDigit?_accumulated? {radix : Nat} (hradix : 0 < radix) (n digit : Nat) :
    pushDigit? radix (accumulated? n) digit = accumulated? (n * radix + digit) := by
  have hgrows : n ≤ n * radix := Nat.le_mul_of_pos_right n hradix
  by_cases hsmall : n * radix + digit < accumulatorBound
  · have hproduct : n * radix < accumulatorBound := by omega
    have hn : n < accumulatorBound := by omega
    simp [pushDigit?, accumulated?, hsmall, hproduct, hn]
  · rw [accumulated?, accumulated?, if_neg hsmall, pushDigit?]
    split_ifs with hn
    · by_cases hproduct : n * radix < accumulatorBound <;> simp [accumulated?, hproduct, hsmall]
    · rfl

theorem foldl_pushDigit? {radix : Nat} (hradix : 0 < radix) (ds : List Nat) :
    ds.foldl (pushDigit? radix) (some 0) = accumulated? (Nat.ofDigits radix ds.reverse) := by
  rw [← foldl_eq_ofDigits]
  induction ds using List.reverseRecOn with
  | nil => rfl
  | append_singleton ds d ih =>
    rw [List.foldl_append, ih, List.foldl_append]
    exact pushDigit?_accumulated? hradix _ d

/-- **The accumulator ends with the value of the numeral**, if it can hold it. -/
theorem Numeral.accumulate?_eq {radix : Nat} (hpos : 0 < radix) (hradix : radix ≤ 16)
    {text : List Char} {ds : List Nat} (hnum : Numeral radix text ds) :
    accumulate? radix text = accumulated? (Nat.ofDigits radix ds.reverse) := by
  rw [accumulate?, hnum.filterMap_value? hradix, foldl_pushDigit? hpos]

end DeclAnalysis.Digits
