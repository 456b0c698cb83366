import DeclAnalysis.Proofs.Ty.Canonical

/-!
# Narrowing between integral types

Between types that designate integers, a conversion is judged by the two ranges and, if they do not
settle it, by the value. So a known value can leave the range of the target unnoticed in one way
only: the target covers the whole source type, and the value was outside of that type already.

The ranges are compared by their ends. Since no range is empty this is the same as comparing them
value by value, so narrowing is loss of value (`integer_narrowing_is_loss`).
-/

namespace DeclAnalysis

theorem IntRange.narrowsTo_int_eq_false_iff {source target : IntRange} {v : Int} :
    source.narrowsTo (some (.int v)) target = false ↔
      target.covers source = true ∨ target.contains v = true := by
  rw [narrowsTo]
  cases target.covers source <;> simp

private theorem IntRange.narrowsTo_none_eq_false_iff {source target : IntRange} :
    source.narrowsTo none target = false ↔ target.covers source = true := by
  simp [narrowsTo]

private theorem IntRange.narrowsTo_of_known {source target : IntRange} (value : Option Constant)
    (hunknown : source.narrowsTo none target = false) : source.narrowsTo value target = false := by
  rw [narrowsTo.eq_def, narrowsTo_none_eq_false_iff.mp hunknown]
  rfl

private theorem Precision.narrowsTo_of_known {source target : Precision} (value : Option Constant)
    (hunknown : source.narrowsTo none target = false) : source.narrowsTo value target = false := by
  have hrank : ¬ target.rank < source.rank := by simpa [narrowsTo] using hunknown
  rw [narrowsTo.eq_def, decide_eq_false hrank]
  rfl

theorem IntRange.contains_of_covers {source target : IntRange} {v : Int}
    (hcovers : target.covers source = true) (hv : source.contains v = true) :
    target.contains v = true := by
  rw [covers_iff] at hcovers
  rw [contains_iff] at hv ⊢
  omega

private theorem IntRange.covers_iff_forall_contains {source target : IntRange}
    (hsource : source.lo ≤ source.hi) :
    target.covers source = true ↔ ∀ v, source.contains v = true → target.contains v = true := by
  constructor
  · intro hcovers v hv
    exact contains_of_covers hcovers hv
  · intro hall
    have hlo := hall source.lo (contains_iff.mpr ⟨Int.le_refl _, hsource⟩)
    have hhi := hall source.hi (contains_iff.mpr ⟨hsource, Int.le_refl _⟩)
    rw [contains_iff] at hlo hhi
    exact covers_iff.mpr ⟨hlo.1, hhi.2⟩

namespace Widths

variable {w : Widths} {t source target : Ty}

private theorem range?_withoutAlias (w : Widths) (t : Ty) :
    w.range? t.withoutAlias = w.range? t := by
  rw [range?, range?, Ty.withoutAlias_withoutAlias]

theorem range?_designated {range : IntRange} (hrange : w.range? t = some range) :
    w.range? t.designated = some range := by
  rw [Ty.designated]
  split
  · next referent hreference =>
    rw [range?, hreference] at hrange
    cases hrange
  · rw [range?_withoutAlias, hrange]

theorem narrowing?_eq_none_iff {own range : IntRange} (hown : w.range? source.designated = some own)
    (hrange : w.range? target.designated = some range) (value : Option Constant) :
    w.narrowing? source value target = none ↔ own.narrowsTo value range = false := by
  simp [narrowing?, narrows, hown, hrange]

private theorem exists_range?_of_isIntegral (w : Widths) (ht : t.isIntegral = true) :
    ∃ range, w.range? t = some range := by
  induction t with
  | named _ _ ih => exact ih ht
  | bool | char | integer => exact ⟨_, rfl⟩
  | _ => exact absurd ht Bool.false_ne_true

private theorem narrows_of_known (w : Widths) (value : Option Constant)
    (hunknown : w.narrows source none target = false) : w.narrows source value target = false := by
  rw [narrows.eq_def] at hunknown ⊢
  rcases hown : w.range? source with - | own <;> rcases hrange : w.range? target with - | range <;>
    rw [hown, hrange] at hunknown
  · dsimp only at hunknown ⊢
    split
    · exact Precision.narrowsTo_of_known value hunknown
    · rfl
  · exact hunknown
  · exact hunknown
  · exact IntRange.narrowsTo_of_known value hunknown

private theorem narrows_self (w : Widths) (t : Ty) (value : Option Constant) :
    w.narrows t value t = false := by
  rw [narrows.eq_def]
  rcases w.range? t with - | range
  · cases t with
    | floating p =>
      have hrank : p.narrowsTo none p = false := by simp [Precision.narrowsTo]
      exact Precision.narrowsTo_of_known value hrank
    | _ => rfl
  · have hcovers : range.covers range = true :=
      IntRange.covers_iff.mpr ⟨Int.le_refl _, Int.le_refl _⟩
    exact IntRange.narrowsTo_of_known value (IntRange.narrowsTo_none_eq_false_iff.mpr hcovers)

private theorem narrows_of_not_arithmetic (hrange : w.range? source = none)
    (hfloating : source.isFloating = false) (value : Option Constant) :
    w.narrows source value target = false := by
  rw [narrows.eq_def, hrange]
  rcases w.range? target with - | range
  · dsimp only
    split
    · exact absurd hfloating.symm Bool.false_ne_true
    · rfl
  · exact hfloating

theorem narrowing?_eq_none_iff_narrows {value : Option Constant} :
    w.narrowing? source value target = none ↔
      w.narrows source.designated.canonical value target.designated.canonical = false := by
  simp [narrowing?]

private theorem narrowing?_of_known (value : Option Constant)
    (hunknown : w.narrowing? source none target = none) :
    w.narrowing? source value target = none :=
  narrowing?_eq_none_iff_narrows.mpr
    (narrows_of_known w value (narrowing?_eq_none_iff_narrows.mp hunknown))

theorem narrowing?_congr {source' target' : Ty}
    (hsource : source'.designated.canonical = source.designated.canonical)
    (htarget : target'.designated.canonical = target.designated.canonical)
    (value : Option Constant) :
    w.narrowing? source' value target' = w.narrowing? source value target := by
  rw [narrowing?, narrowing?, hsource, htarget]

theorem narrowing?_of_same_designated
    (hsame : target.designated.canonical = source.designated.canonical) (value : Option Constant) :
    w.narrowing? source value target = none := by
  rw [narrowing?_eq_none_iff_narrows, hsame]
  exact narrows_self w _ value

theorem narrowing?_of_not_arithmetic (hrange : w.range? source.designated = none)
    (hfloating : source.designated.isFloating = false) (value : Option Constant) :
    w.narrowing? source value target = none := by
  rw [narrowing?_eq_none_iff_narrows]
  exact narrows_of_not_arithmetic ((range?_canonical w _).trans hrange)
    ((Ty.isFloating_canonical _).trans hfloating) value

theorem eq_of_narrowing? {value : Option Constant} {n : Narrowing}
    (hn : w.narrowing? source value target = some n) :
    n = ⟨source.designated.canonical, target.designated.canonical⟩ := by
  rw [narrowing?] at hn
  split at hn
  · exact (Option.some.inj hn).symm
  · exact absurd hn (Option.some_ne_none n).symm

end Widths

/-- **Integer narrowing is loss of value.** Take a conversion between types that designate integral
ones. It is allowed

* for an unknown value exactly if the target has every value of the source;
* for a known value exactly if the target has this value or every value of the source, which comes
  to the target having it if the source does;
* for any known value if it is for an unknown one.

Both the verdict and the types that a refusal reports depend on the canonical forms of the two
designated types only, whatever aliases and references they stand behind. -/
theorem integer_narrowing_is_loss (w : Widths) (source target : Ty)
    (hsource : source.designated.isIntegral = true)
    (htarget : target.designated.isIntegral = true) :
    ∃ own range, w.range? source.designated = some own ∧
      w.range? target.designated = some range ∧
      (w.narrowing? source none target = none ↔
        ∀ v, own.contains v = true → range.contains v = true) ∧
      (∀ v, w.narrowing? source (some (.int v)) target = none ↔
        range.contains v = true ∨ ∀ u, own.contains u = true → range.contains u = true) ∧
      (∀ v, own.contains v = true →
        (w.narrowing? source (some (.int v)) target = none ↔ range.contains v = true)) ∧
      (∀ value, w.narrowing? source none target = none →
        w.narrowing? source value target = none) ∧
      (∀ value n, w.narrowing? source value target = some n →
        n = ⟨source.designated.canonical, target.designated.canonical⟩) ∧
      ∀ source' target' value, source'.designated.canonical = source.designated.canonical →
        target'.designated.canonical = target.designated.canonical →
        w.narrowing? source' value target' = w.narrowing? source value target := by
  obtain ⟨own, hown⟩ := w.exists_range?_of_isIntegral hsource
  obtain ⟨range, hrange⟩ := w.exists_range?_of_isIntegral htarget
  have hcovers : range.covers own = true ↔
      ∀ u, own.contains u = true → range.contains u = true :=
    IntRange.covers_iff_forall_contains (Widths.lo_le_hi_of_range? hown)
  have hknown (v : Int) : w.narrowing? source (some (.int v)) target = none ↔
      range.contains v = true ∨ ∀ u, own.contains u = true → range.contains u = true := by
    rw [Widths.narrowing?_eq_none_iff hown hrange, IntRange.narrowsTo_int_eq_false_iff, hcovers,
      or_comm]
  refine ⟨own, range, hown, hrange, ?_, hknown, ?_, ?_, ?_, ?_⟩
  · rw [Widths.narrowing?_eq_none_iff hown hrange, IntRange.narrowsTo_none_eq_false_iff, hcovers]
  · intro v hv
    rw [hknown v]
    exact ⟨fun hsafe ↦ hsafe.elim id fun hall ↦ hall v hv, .inl⟩
  · exact fun value ↦ Widths.narrowing?_of_known value
  · exact fun value n ↦ Widths.eq_of_narrowing?
  · exact fun source' target' value h h' ↦ Widths.narrowing?_congr h h' value

/-- On a target whose `long` is shorter than its `int`, a reference to an alias of `int` is narrowed
to `long` in general and for the value 2048, but not for 2047. -/
theorem integer_narrowing_is_loss_shortLong :
    let w : Widths := { int := 16, long := 12 }
    let source : Ty := .reference (.named "word" .int)
    let target : Ty := .integer .long .signed
    source.designated.isIntegral = true ∧ target.designated.isIntegral = true ∧
    w.narrowing? source none target = some ⟨.int, target⟩ ∧
    w.narrowing? source (some (.int 2047)) target = none ∧
    w.narrowing? source (some (.int 2048)) target ≠ none := by
  intro w source target
  obtain ⟨own, range, hown, hrange, hunknown, -, hknown, -, hreported, -⟩ :=
    integer_narrowing_is_loss w source target rfl rfl
  obtain rfl : ⟨-32768, 32767⟩ = own := Option.some.inj hown
  obtain rfl : ⟨-2048, 2047⟩ = range := Option.some.inj hrange
  have hgeneral : w.narrowing? source none target ≠ none := fun hnone ↦
    absurd (hunknown.mp hnone 2048 (by decide)) (by decide)
  obtain ⟨n, hn⟩ := Option.ne_none_iff_exists'.mp hgeneral
  refine ⟨rfl, rfl, ?_, (hknown 2047 (by decide)).mpr (by decide), fun hnone ↦ ?_⟩
  · rw [hn, hreported none n hn]
    rfl
  · exact absurd ((hknown 2048 (by decide)).mp hnone) (by decide)

end DeclAnalysis
