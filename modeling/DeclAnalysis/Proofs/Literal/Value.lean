import DeclAnalysis.Literal.Meaning
import DeclAnalysis.Proofs.Ty.Range
import Mathlib.Tactic.Common

/-!
# Values of literals and the ranges of their types

What the readers of literals can return, and how the value of a literal compares with its type. A
literal with an integral value has an integral type, but not always one that holds the value. The
type of an integer literal is chosen to hold it. A character literal of one code unit is a `char`
whatever its encoding, so the value of `u'\x100'` is beyond its type. Only the byte encodings keep
to the range of `char`, where it has the 8 bits of a byte, and a literal of several characters keeps
to the range of `int` where that has the 32 bits which the bytes are packed into.
-/

namespace DeclAnalysis

/-! ## Integer literals -/

theorem Literal.fits_of_integerMeaning {w : Widths} {l : Literal} {m : LiteralMeaning}
    (hok : l.integerMeaning w = .ok m) :
    ∃ width sign, ∃ v : Nat, m = ⟨.integer width sign, .int v, false⟩ ∧
      w.fits width sign v = true := by
  rw [integerMeaning] at hok
  split at hok
  · cases hok
  · split at hok
    · cases hok
    · cases hok
    · next value hvalue =>
      dsimp only at hok
      split at hok
      · next width sign hfound =>
        cases hok
        exact ⟨width, sign, value, rfl, by simpa using List.find?_some hfound⟩
      · cases hok

/-! ## Floating literals -/

theorem Literal.exists_of_floatingMeaning {l : Literal} {m : LiteralMeaning}
    (hok : l.floatingMeaning = .ok m) :
    ∃ precision value, m = ⟨.floating precision, .float (precision.round value), false⟩ ∧
      (precision.round value).isFinite = true := by
  rw [floatingMeaning] at hok
  split at hok
  · cases hok
  · split at hok
    · cases hok
    · split at hok
      · cases hok
      · split at hok
        · cases hok
        · split at hok <;> cases hok
          next hfinite => exact ⟨_, _, rfl, hfinite⟩

/-! ## Code units -/

namespace CharEncoding

private theorem lt_of_mem_codeUnits {e : CharEncoding} (hbyte : e.isByte = true) {u : CharUnit}
    {values : List Nat} (hok : e.codeUnits u = .ok values) : ∀ v ∈ values, v < 256 := by
  have hlimit : e.unitLimit = 255 := by
    rcases e with - | - | - | - | -
    all_goals first | rfl | cases hbyte
  rw [codeUnits.eq_def] at hok
  split at hok
  · next value =>
    split at hok
    · cases hok
    · next hfits =>
      cases hok
      simp only [List.forall_mem_singleton]
      omega
  · next code =>
    split at hok
    · cases hok
      simp only [List.forall_mem_map]
      exact fun byte _ ↦ byte.toNat_lt
    · next hascii =>
      cases hok
      simp only [hbyte, Bool.true_and, decide_eq_true_eq] at hascii
      simp only [List.forall_mem_singleton]
      omega

theorem lt_of_mem_encode {e : CharEncoding} (hbyte : e.isByte = true) {units : List CharUnit}
    {values : List Nat} (hok : e.encode units = .ok values) : ∀ v ∈ values, v < 256 := by
  induction units generalizing values with
  | nil =>
    cases hok
    simp
  | cons u rest ih =>
    rw [encode] at hok
    split at hok
    · cases hok
    · next first hfirst =>
      rcases hrest : e.encode rest with fault | others
      · rw [hrest] at hok
        cases hok
      · rw [hrest] at hok
        cases hok
        rw [List.forall_mem_append]
        exact ⟨lt_of_mem_codeUnits hbyte hfirst, ih hrest⟩

end CharEncoding

/-- A byte fits a `char` of at least 8 bits: where `char` is signed, its upper half is negative. -/
private theorem Widths.contains_charValue {w : Widths} {e : CharEncoding} (hbyte : e.isByte = true)
    (hwidth : 8 ≤ w.char) {unit : Nat} (hunit : unit < 256) :
    (IntRange.ofBits w.char w.charSigned).contains (w.charValue e unit) = true := by
  have hhalf : 2 ^ 7 ≤ 2 ^ (w.char - 1) := Nat.pow_le_pow_right Nat.two_pos (by omega)
  have hfull : 2 ^ 8 ≤ 2 ^ w.char := Nat.pow_le_pow_right Nat.two_pos hwidth
  rw [IntRange.contains_iff, IntRange.ofBits, charValue, hbyte, Bool.true_and]
  simp only [Nat.pow_eq]
  rcases hsigned : w.charSigned with - | -
  · simp only [Bool.false_and, Bool.false_eq_true, reduceIte]
    omega
  · simp only [Bool.true_and, decide_eq_true_eq, reduceIte]
    split <;> omega

private theorem Widths.contains_bmod {w : Widths} (hwidth : 32 ≤ w.int) (word : Int) :
    (IntRange.ofBits w.int true).contains (Int.bmod word (2 ^ 32)) = true := by
  have hhalf : 2 ^ 31 ≤ 2 ^ (w.int - 1) := Nat.pow_le_pow_right Nat.two_pos (by omega)
  have hlower := Int.le_bmod (x := word) (m := 2 ^ 32) (by decide)
  have hupper := Int.bmod_lt (x := word) (m := 2 ^ 32) (by decide)
  rw [IntRange.contains_iff, IntRange.ofBits]
  simp only [reduceIte, Nat.pow_eq]
  omega

/-! ## Character literals -/

namespace Literal

/-- A character literal is read from the body between its quotes, and from the code units that its
encoding makes of the body. -/
theorem exists_codeUnits_of_characterMeaning {w : Widths} {l : Literal} {m : LiteralMeaning}
    (hok : l.characterMeaning w = .ok m) : ∃ body units values,
      unquote? (CharEncoding.split l.text.toList).2 = some body ∧
      CharUnit.readAll body = .ok units ∧
      (CharEncoding.split l.text.toList).1.encode units = .ok values ∧
      codeUnitsMeaning w (CharEncoding.split l.text.toList).1 values = .ok m := by
  rw [characterMeaning] at hok
  dsimp only at hok
  split at hok
  · cases hok
  · next body hbody =>
    split at hok
    · cases hok
    · next units hunits =>
      split at hok
      · cases hok
      · next values hvalues => exact ⟨body, units, values, hbody, hunits, hvalues, hok⟩

/-- One code unit makes a `char`, and several make an `int` if the literal has no mark. -/
theorem codeUnitsMeaning_cases {w : Widths} {e : CharEncoding} {values : List Nat}
    {m : LiteralMeaning} (hok : codeUnitsMeaning w e values = .ok m) :
    (∃ unit, values = [unit] ∧ m = ⟨.char .plain, .int (w.charValue e unit), false⟩) ∨
      e = .narrow ∧ m = ⟨.int, .int (Int.bmod (packBytes values) (2 ^ 32)), true⟩ := by
  rw [codeUnitsMeaning.eq_def] at hok
  split at hok
  · cases hok
  · next unit =>
    cases hok
    exact .inl ⟨unit, rfl, rfl⟩
  · split at hok
    · next hnarrow =>
      cases hok
      exact .inr ⟨hnarrow, rfl⟩
    · cases hok

/-- A character literal has the type `char` or `int`. The type holds the value if the encoding is a
byte encoding and the two types have room for a byte and for a packed word. -/
theorem exists_range_of_characterMeaning {w : Widths} {l : Literal} {m : LiteralMeaning}
    (hok : l.characterMeaning w = .ok m) : ∃ own v, w.range? m.type = some own ∧
      m.value = .int v ∧ ((CharEncoding.split l.text.toList).1.isByte = true → 8 ≤ w.char →
        32 ≤ w.int → own.contains v = true) := by
  obtain ⟨body, units, values, -, -, hencode, hvalues⟩ := exists_codeUnits_of_characterMeaning hok
  rcases codeUnitsMeaning_cases hvalues with ⟨unit, rfl, rfl⟩ | ⟨-, rfl⟩
  · refine ⟨_, _, rfl, rfl, fun hbyte hchar _ ↦ ?_⟩
    have hlt := CharEncoding.lt_of_mem_encode hbyte hencode unit List.mem_cons_self
    exact Widths.contains_charValue hbyte hchar hlt
  · exact ⟨_, _, rfl, rfl, fun _ _ hint ↦ Widths.contains_bmod hint _⟩

/-! ## All literals -/

theorem cases_of_read {w : Widths} {l : Literal} {m : LiteralMeaning} (hread : l.read w = .ok m) :
    l.kind = .integer ∧ l.integerMeaning w = .ok m ∨
      l.kind = .character ∧ l.characterMeaning w = .ok m ∨
      l.kind = .floating ∧ l.floatingMeaning = .ok m := by
  have hmeaning := read_eq_ok_iff.mp hread
  rw [meaning] at hmeaning
  split at hmeaning
  · cases hmeaning
  · split at hmeaning
    · next hkind => exact .inl ⟨hkind, hmeaning⟩
    · next hkind => exact .inr (.inl ⟨hkind, hmeaning⟩)
    · next hkind => exact .inr (.inr ⟨hkind, hmeaning⟩)

/-- A literal whose value is never beyond its type on a target: an integer literal, or a character
literal in a byte encoding where `char` has room for a byte and `int` for a packed word. -/
def KeepsToType (l : Literal) (w : Widths) : Prop :=
  l.kind = .integer ∨
    l.kind = .character ∧ (CharEncoding.split l.text.toList).1.isByte = true ∧
      8 ≤ w.char ∧ 32 ≤ w.int

/-- **A literal with an integral value has an integral type**, which holds the value if the literal
keeps to its type. -/
theorem exists_range_of_read {w : Widths} {l : Literal} {m : LiteralMeaning} {v : Int}
    (hread : l.read w = .ok m) (hvalue : m.value = .int v) :
    ∃ own, w.range? m.type = some own ∧ (l.KeepsToType w → own.contains v = true) := by
  rcases cases_of_read hread with ⟨-, hmeaning⟩ | ⟨hkind, hmeaning⟩ | ⟨-, hmeaning⟩
  · obtain ⟨width, sign, value, rfl, hfits⟩ := fits_of_integerMeaning hmeaning
    cases hvalue
    exact ⟨_, rfl, fun _ ↦ hfits⟩
  · obtain ⟨own, v', hown, hvalue', hholds⟩ := exists_range_of_characterMeaning hmeaning
    obtain rfl : v' = v := Constant.int.inj (hvalue'.symm.trans hvalue)
    refine ⟨own, hown, ?_⟩
    rintro (hinteger | ⟨-, hbyte, hchar, hint⟩)
    · exact absurd (hkind.symm.trans hinteger) nofun
    · exact hholds hbyte hchar hint
  · obtain ⟨precision, value, rfl, -⟩ := exists_of_floatingMeaning hmeaning
    cases hvalue

/-- **Literals have values of their own type.** An integer literal, whatever base and suffix it
carries, has a value that is not negative and lies in the range of its type. A character literal
without a mark or with the mark `u8`, of one character or of several, has a value in the range of
its type if a `char` has room for a byte and an `int` for a packed word. The ends of these ranges
are integers of 128 bits. -/
theorem value_in_range_of_type {w : Widths} (hw : w.Supported) {l : Literal} {m : LiteralMeaning}
    (hread : l.read w = .ok m) :
    (l.kind = .integer → ∃ v range, m.value = .int v ∧ w.range? m.type = some range ∧
      0 ≤ v ∧ range.contains v = true ∧
      -(2 ^ 127 : Int) ≤ range.lo ∧ range.hi < 2 ^ 127) ∧
    (l.kind = .character → (CharEncoding.split l.text.toList).1 ∈ [.narrow, .utf8] →
      8 ≤ w.char → 32 ≤ w.int → ∃ v range, m.value = .int v ∧ w.range? m.type = some range ∧
        range.contains v = true ∧ -(2 ^ 127 : Int) ≤ range.lo ∧ range.hi < 2 ^ 127) := by
  rcases cases_of_read hread with ⟨hkind, hmeaning⟩ | ⟨hkind, hmeaning⟩ | ⟨hkind, -⟩
  · refine ⟨fun _ ↦ ?_, fun hno ↦ absurd (hkind.symm.trans hno) nofun⟩
    obtain ⟨width, sign, v, rfl, hfits⟩ := fits_of_integerMeaning hmeaning
    obtain ⟨hlo, hhi⟩ := hw.bounds_of_range? (t := .integer width sign) rfl
    exact ⟨v, _, rfl, rfl, Int.natCast_nonneg v, hfits, hlo, hhi⟩
  · refine ⟨fun hno ↦ absurd (hkind.symm.trans hno) nofun, fun _ hencoding hchar hint ↦ ?_⟩
    obtain ⟨range, v, hrange, hvalue, hholds⟩ := exists_range_of_characterMeaning hmeaning
    have hbyte : (CharEncoding.split l.text.toList).1.isByte = true := by
      simp only [List.mem_cons, List.not_mem_nil, or_false] at hencoding
      rcases hencoding with heq | heq <;> rw [heq] <;> rfl
    obtain ⟨hlo, hhi⟩ := hw.bounds_of_range? hrange
    exact ⟨v, range, hvalue, hrange, hholds hbyte hchar hint, hlo, hhi⟩
  · exact ⟨fun hno ↦ absurd (hkind.symm.trans hno) nofun,
      fun hno ↦ absurd (hkind.symm.trans hno) nofun⟩

/-- The base of `zz1FuL` is given as hexadecimal, so that its first two characters are passed over,
and the four bytes of `'\377\377\377\377'` are all ones. -/
theorem value_in_range_of_type_extremes :
    let w : Widths := { short := 1, long := 126, longLong := 126 }
    let l : Literal := ⟨.integer, "zz1FuL", some .hex, "uL", Span.zero⟩
    let c : Literal := .character "'\\377\\377\\377\\377'" Span.zero
    w.Supported ∧
      l.read w = .ok ⟨.integer .long .unsigned, .int 31, false⟩ ∧
      (IntRange.mk 0 (2 ^ 126 - 1)).contains 31 = true ∧
      c.read w = .ok ⟨.int, .int (-1), true⟩ ∧
      (IntRange.mk (-2 ^ 31) (2 ^ 31 - 1)).contains (-1) = true := by
  intro w l c
  have hw : w.Supported := by decide
  have hinteger : l.read w = .ok ⟨.integer .long .unsigned, .int 31, false⟩ := by decide +kernel
  have hcharacter : c.read w = .ok ⟨.int, .int (-1), true⟩ := by decide +kernel
  obtain ⟨v, range, hv, hrange, -, hcontains, -⟩ := (value_in_range_of_type hw hinteger).1 rfl
  obtain ⟨v', range', hv', hrange', hcontains', -⟩ :=
    (value_in_range_of_type hw hcharacter).2 rfl (by decide) (by decide) (by decide)
  have hlong : w.range? (.integer .long .unsigned) = some ⟨0, 2 ^ 126 - 1⟩ := by decide
  have hint : w.range? .int = some ⟨-2 ^ 31, 2 ^ 31 - 1⟩ := by decide
  cases hv
  cases hv'
  obtain rfl := Option.some.inj (hlong.symm.trans hrange)
  obtain rfl := Option.some.inj (hint.symm.trans hrange')
  exact ⟨hw, hinteger, hcontains, hcharacter, hcontains'⟩

end Literal

end DeclAnalysis
