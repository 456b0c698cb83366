import DeclAnalysis.Ty.Range
import Mathlib.Algebra.Ring.Int.Defs
import Mathlib.Algebra.Ring.Nat

/-!
# What integer types hold

A target is supported if each of its types has between 1 and 126 bits. On such a target a number
that some integer type holds is below `2 ^ 126`, which is what the size of the accumulator of
integer literals rests on.
-/

namespace DeclAnalysis

theorem IntRange.bounds_ofBits {bits : Nat} (hle : bits ≤ 126) (signed : Bool) :
    -(2 ^ 126 : Int) ≤ (ofBits bits signed).lo ∧ (ofBits bits signed).hi < 2 ^ 126 := by
  have hfull : 2 ^ bits ≤ 2 ^ 126 := Nat.pow_le_pow_right Nat.two_pos hle
  have hhalf : 2 ^ (bits - 1) ≤ 2 ^ 126 :=
    Nat.pow_le_pow_right Nat.two_pos (Nat.le_trans (Nat.sub_le _ _) hle)
  rw [ofBits]
  split <;> simp only [Nat.pow_eq] <;> omega

theorem IntRange.lo_le_hi_ofBits (bits : Nat) (signed : Bool) :
    (ofBits bits signed).lo ≤ (ofBits bits signed).hi := by
  have hfull : 0 < 2 ^ bits := Nat.two_pow_pos bits
  have hhalf : 0 < 2 ^ (bits - 1) := Nat.two_pow_pos (bits - 1)
  rw [ofBits]
  split <;> simp only [Nat.pow_eq] <;> omega

namespace Widths

variable {w : Widths}

/-- Every type of the target has at least one bit and at most 126. -/
def Supported (w : Widths) : Prop :=
  ∀ bits ∈ [w.char, w.short, w.int, w.long, w.longLong], 1 ≤ bits ∧ bits ≤ 126

instance : Decidable w.Supported := inferInstanceAs (Decidable (∀ bits ∈ [_, _, _, _, _], _))

theorem Supported.bits_le (hw : w.Supported) (width : IntWidth) : w.bits width ≤ 126 := by
  cases width <;> exact (hw _ (by simp [bits])).2

/-- The range of an integer type contains a number. -/
def Holds (w : Widths) (type : IntWidth × Signedness) (v : Nat) : Prop :=
  ∃ range, w.range? (.integer type.1 type.2) = some range ∧ range.lo ≤ v ∧ v ≤ range.hi

theorem fits_iff_holds {type : IntWidth × Signedness} {v : Nat} :
    w.fits type.1 type.2 v = true ↔ w.Holds type v := by
  simp [fits, Holds, range?, Ty.withoutAlias]

instance (type : IntWidth × Signedness) (v : Nat) : Decidable (w.Holds type v) :=
  decidable_of_iff _ fits_iff_holds

/-- A type is the first of some candidates that holds a number. -/
def FirstToHold (w : Widths) (candidates : List (IntWidth × Signedness)) (v : Nat)
    (type : IntWidth × Signedness) : Prop :=
  ∃ before after, candidates = before ++ type :: after ∧ w.Holds type v ∧
    ∀ other ∈ before, ¬ w.Holds other v

/-- The first of some candidates that holds a number. -/
def firstToHold? (w : Widths) (candidates : List (IntWidth × Signedness)) (v : Nat) :
    Option (IntWidth × Signedness) :=
  candidates.find? fun type ↦ w.fits type.1 type.2 v

section Candidates

variable {candidates : List (IntWidth × Signedness)} {v : Nat}

theorem firstToHold?_eq_some_iff {type : IntWidth × Signedness} :
    w.firstToHold? candidates v = some type ↔ w.FirstToHold candidates v type := by
  rw [firstToHold?, List.find?_eq_some_iff_append, FirstToHold]
  simp only [← fits_iff_holds, Bool.not_eq_true, Bool.not_eq_eq_eq_not, Bool.not_true]
  constructor
  · rintro ⟨hfits, before, after, hsplit, hbefore⟩
    exact ⟨before, after, hsplit, hfits, hbefore⟩
  · rintro ⟨before, after, hsplit, hfits, hbefore⟩
    exact ⟨hfits, before, after, hsplit, hbefore⟩

theorem firstToHold?_eq_none_iff :
    w.firstToHold? candidates v = none ↔ ∀ type ∈ candidates, ¬ w.Holds type v := by
  simp only [firstToHold?, List.find?_eq_none, fits_iff_holds]

end Candidates

theorem Supported.lt_of_holds (hw : w.Supported) {type : IntWidth × Signedness} {v : Nat}
    (hholds : w.Holds type v) : v < 2 ^ 126 := by
  obtain ⟨range, hrange, -, hhi⟩ := hholds
  obtain rfl : IntRange.ofBits (w.bits type.1) type.2.isSigned = range := Option.some.inj hrange
  have hlt := (IntRange.bounds_ofBits (hw.bits_le type.1) type.2.isSigned).2
  omega

theorem exists_bits_of_range? {t : Ty} {range : IntRange} (hrange : w.range? t = some range) :
    ∃ bits ∈ [1, w.char, w.short, w.int, w.long, w.longLong], ∃ signed,
      range = .ofBits bits signed := by
  rw [range?.eq_def] at hrange
  split at hrange
  · exact ⟨1, by simp, false, (Option.some.inj hrange).symm⟩
  · exact ⟨w.char, by simp, _, (Option.some.inj hrange).symm⟩
  · next width sign _ =>
    refine ⟨w.bits width, ?_, _, (Option.some.inj hrange).symm⟩
    cases width <;> simp [bits]
  · exact absurd hrange (Option.some_ne_none _).symm

theorem lo_le_hi_of_range? {t : Ty} {range : IntRange} (hrange : w.range? t = some range) :
    range.lo ≤ range.hi := by
  obtain ⟨bits, -, signed, rfl⟩ := exists_bits_of_range? hrange
  exact IntRange.lo_le_hi_ofBits bits signed

theorem Supported.bounds_of_range? (hw : w.Supported) {t : Ty} {range : IntRange}
    (hrange : w.range? t = some range) : -(2 ^ 127 : Int) ≤ range.lo ∧ range.hi < 2 ^ 127 := by
  obtain ⟨bits, hmem, signed, rfl⟩ := exists_bits_of_range? hrange
  have hle : bits ≤ 126 := by
    rcases List.mem_cons.mp hmem with rfl | hmem
    · decide
    · exact (hw bits hmem).2
  have hbounds := IntRange.bounds_ofBits hle signed
  omega

end Widths

end DeclAnalysis
