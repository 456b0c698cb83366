import DeclAnalysis.Numeric.Binary64
import Mathlib.Tactic.Ring

/-!
# Rounding to single precision is exact the second time

The rank of a value in a format tells its significand and its exponent, and a value that a format
has is rounded to its own rank (`Format.round_of_exact`). Every finite single is also a double: its
significand is shorter, and even the least single is far above the least double. So the double that
a single is converted to has the same value, and rounding it to single precision again changes
nothing (`Binary64.isSingle_toSingle`).
-/

namespace DeclAnalysis

namespace Numeric

private theorem roundDiv_mul (q : Nat) {b : Nat} (hb : 0 < b) : roundDiv (q * b) b = q := by
  have hexact : ¬ (b < 2 * 0 ∨ 2 * 0 = b ∧ q % 2 = 1) := by omega
  rw [roundDiv, Nat.mul_mod_left, Nat.mul_div_cancel q hb]
  exact if_neg hexact

private theorem log2_mul_two_pow {s n : Nat} (hlow : 2 ^ n ≤ s) (hhigh : s < 2 ^ (n + 1))
    (k : Nat) : (s * 2 ^ k).log2 = n + k := by
  have hpos : 0 < s * 2 ^ k :=
    Nat.mul_pos (Nat.lt_of_lt_of_le (Nat.two_pow_pos n) hlow) (Nat.two_pow_pos k)
  rw [Nat.log2_eq_iff hpos.ne']
  rw [show n + k + 1 = n + 1 + k by omega, Nat.pow_add, Nat.pow_add]
  exact ⟨Nat.mul_le_mul_right _ hlow, Nat.mul_lt_mul_of_pos_right hhigh (Nat.two_pow_pos k)⟩

namespace Format

variable (f : Format)

/-! ## Ranks -/

private theorem significand_add_lift (rank : Nat) :
    f.significand rank + f.lift rank * 2 ^ f.fractionBits = rank := by
  rw [significand, lift, Nat.pow_eq]
  split
  · next hsmall => rw [Nat.div_eq_of_lt hsmall, Nat.zero_sub, Nat.zero_mul, Nat.add_zero]
  · next hnormal =>
    have hpos : 0 < rank / 2 ^ f.fractionBits :=
      Nat.div_pos (Nat.not_lt.mp hnormal) (Nat.two_pow_pos _)
    calc rank % 2 ^ f.fractionBits + 2 ^ f.fractionBits +
          (rank / 2 ^ f.fractionBits - 1) * 2 ^ f.fractionBits
        = rank % 2 ^ f.fractionBits +
          (rank / 2 ^ f.fractionBits - 1 + 1) * 2 ^ f.fractionBits := by ring
      _ = rank := by rw [Nat.sub_add_cancel hpos, Nat.mul_comm, Nat.mod_add_div]

private theorem significand_lt (rank : Nat) : f.significand rank < 2 ^ (f.fractionBits + 1) := by
  have hmod := Nat.mod_lt rank (Nat.two_pow_pos f.fractionBits)
  rw [Nat.pow_succ, significand, Nat.pow_eq]
  split <;> omega

private theorem log2_numerator_sub (rank : Nat) :
    (f.numerator rank).log2 - f.fractionBits = f.lift rank := by
  rw [numerator, Nat.pow_eq]
  by_cases hsmall : rank < 2 ^ f.fractionBits
  · have hlift : f.lift rank = 0 := by
      rw [lift, Nat.pow_eq, Nat.div_eq_of_lt hsmall]
    rw [significand, Nat.pow_eq, if_pos hsmall, hlift, Nat.pow_zero, Nat.mul_one]
    rcases Nat.eq_zero_or_pos rank with rfl | hpos
    · exact Nat.zero_sub _
    · exact Nat.sub_eq_zero_of_le ((Nat.log2_lt hpos.ne').mpr hsmall).le
  · have hlow : 2 ^ f.fractionBits ≤ f.significand rank := by
      rw [significand, Nat.pow_eq, if_neg hsmall]
      exact Nat.le_add_left _ _
    rw [log2_mul_two_pow hlow (f.significand_lt rank), Nat.add_sub_cancel_left]

/-- **A value of the format is rounded to itself.** -/
theorem round_of_exact {a b rank : Nat} (hb : 0 < b) (hrank : rank < f.infinity)
    (hexact : a * 2 ^ f.leastScale = f.numerator rank * b) : f.round a b = rank := by
  have hquotient : f.numerator rank * b / b = f.numerator rank := Nat.mul_div_cancel _ hb
  have hshifted : f.numerator rank * b = f.significand rank * (b * 2 ^ (f.lift rank)) := by
    rw [numerator, Nat.pow_eq]
    ring
  have hdivisor : 0 < b * 2 ^ (f.lift rank) := Nat.mul_pos hb (Nat.two_pow_pos _)
  rw [round]
  simp only [Nat.pow_eq]
  rw [hexact, hquotient, log2_numerator_sub, hshifted, roundDiv_mul _ hdivisor,
    significand_add_lift, if_pos hrank]

/-! ## Values of other formats -/

private theorem numerator_of_full {m : Nat} (hlow : 2 ^ f.fractionBits ≤ m)
    (hhigh : m < 2 ^ (f.fractionBits + 1)) (k : Nat) :
    f.numerator (m + k * 2 ^ f.fractionBits) = m * 2 ^ k := by
  have hpos := Nat.two_pow_pos f.fractionBits
  rw [Nat.pow_succ] at hhigh
  have hone : m / 2 ^ f.fractionBits = 1 := Nat.div_eq_of_lt_le (by omega) (by omega)
  have hrest : m % 2 ^ f.fractionBits = m - 2 ^ f.fractionBits := by
    rw [Nat.mod_eq_sub_mod hlow, Nat.mod_eq_of_lt (by omega)]
  have hnormal : ¬ m + k * 2 ^ f.fractionBits < 2 ^ f.fractionBits := by
    have := Nat.le_add_right m (k * 2 ^ f.fractionBits)
    omega
  have hlift : f.lift (m + k * 2 ^ f.fractionBits) = k := by
    rw [lift, Nat.pow_eq, Nat.add_mul_div_right _ _ hpos, hone, Nat.add_sub_cancel_left]
  rw [numerator, Nat.pow_eq, hlift, significand, Nat.pow_eq, if_neg hnormal,
    Nat.add_mul_mod_self_right, hrest, Nat.sub_add_cancel hlow]

/-- A number with no more bits than a significand, far enough to the left, is a value of the
format. -/
private theorem exists_rank_of_short {s e : Nat} (hs : s < 2 ^ (f.fractionBits + 1))
    (he : f.fractionBits ≤ e) :
    ∃ rank, f.numerator rank = s * 2 ^ e ∧ rank < (e + 2) * 2 ^ f.fractionBits := by
  have hpos := Nat.two_pow_pos f.fractionBits
  rcases Nat.eq_zero_or_pos s with rfl | hs0
  · refine ⟨0, ?_, Nat.mul_pos (by omega) hpos⟩
    rw [numerator, significand, Nat.pow_eq, if_pos hpos, Nat.zero_mul, Nat.zero_mul]
  · -- the significand is moved up to full length, and the exponent down by as much
    have hlog : s.log2 ≤ f.fractionBits := Nat.lt_succ_iff.mp ((Nat.log2_lt hs0.ne').mpr hs)
    obtain ⟨up, hup⟩ := Nat.exists_eq_add_of_le hlog
    obtain ⟨k, rfl⟩ := Nat.exists_eq_add_of_le (show up ≤ e by omega)
    have hlow : 2 ^ f.fractionBits ≤ s * 2 ^ up := by
      rw [hup, Nat.pow_add]
      exact Nat.mul_le_mul_right _ (Nat.log2_self_le hs0.ne')
    have hhigh : s * 2 ^ up < 2 ^ (f.fractionBits + 1) := by
      rw [hup, show s.log2 + up + 1 = s.log2 + 1 + up by omega, Nat.pow_add]
      exact Nat.mul_lt_mul_of_pos_right Nat.lt_log2_self (Nat.two_pow_pos up)
    refine ⟨s * 2 ^ up + k * 2 ^ f.fractionBits, ?_, ?_⟩
    · rw [f.numerator_of_full hlow hhigh, Nat.pow_add, Nat.mul_assoc]
    · rw [Nat.pow_succ] at hhigh
      calc s * 2 ^ up + k * 2 ^ f.fractionBits
          < (k + 2) * 2 ^ f.fractionBits := by rw [Nat.add_mul]; omega
        _ ≤ (up + k + 2) * 2 ^ f.fractionBits := Nat.mul_le_mul_right _ (by omega)

/-- **Every finite single is a double.** -/
theorem exists_double_of_single {r : Nat} (hr : r < single.infinity) :
    ∃ rank < double.infinity, double.numerator rank * 2 ^ single.leastScale =
      single.numerator r * 2 ^ double.leastScale := by
  have hbits : single.significand r < 2 ^ (double.fractionBits + 1) :=
    Nat.lt_of_lt_of_le (single.significand_lt r) (Nat.pow_le_pow_right Nat.two_pos (by decide))
  have hlift : single.lift r ≤ 253 := by
    have hexponent : r / 2 ^ single.fractionBits < 255 := Nat.div_lt_of_lt_mul (by
      rw [Nat.mul_comm]
      exact hr)
    rw [lift, Nat.pow_eq]
    omega
  -- the least single is this many doublings above the least double
  obtain ⟨gap, hgap⟩ : ∃ gap, gap = 925 := ⟨_, rfl⟩
  have hscale : double.leastScale = gap + single.leastScale := by rw [hgap]; decide
  have hshort : double.fractionBits ≤ single.lift r + gap :=
    Nat.le_trans (show double.fractionBits ≤ 925 by decide) (by omega)
  obtain ⟨rank, hvalue, hrank⟩ := double.exists_rank_of_short hbits hshort
  refine ⟨rank, Nat.lt_of_lt_of_le hrank (Nat.mul_le_mul_right _ ?_), ?_⟩
  · change single.lift r + gap + 2 ≤ 2047
    omega
  · rw [hvalue, numerator, Nat.pow_eq, hscale, Nat.pow_add, Nat.pow_add]
    ring

end Format

end Numeric

/-! ## Doubles -/

open Numeric (Format)

namespace Binary64

private theorem rank_ofRank {rank : Nat} (hrank : rank ≤ Format.double.infinity) :
    (ofRank rank).rank = rank := by
  have hlt : rank < 2 ^ 63 := Nat.lt_of_le_of_lt hrank (by decide)
  have hword : rank % 2 ^ 64 = rank := Nat.mod_eq_of_lt (Nat.lt_trans hlt (by decide))
  rw [Binary64.rank, ofRank, UInt64.toNat_ofNat', hword, Nat.pow_eq, Nat.mod_eq_of_lt hlt]

private theorem singleRank_ofSingleRank {r : Nat} (hr : r < Format.single.infinity) :
    (ofSingleRank r).isFinite = true ∧ (ofSingleRank r).singleRank = r := by
  obtain ⟨rank, hfinite, hvalue⟩ := Format.exists_double_of_single hr
  have hconverted : (ofSingleRank r).rank = rank := by
    rw [ofSingleRank, if_pos hr, ofFraction, Nat.pow_eq, Format.double.round_of_exact
      (Nat.two_pow_pos _) hfinite hvalue.symm, rank_ofRank hfinite.le]
  rw [isFinite, singleRank, hconverted, Nat.pow_eq]
  refine ⟨decide_eq_true hfinite, ?_⟩
  generalize Format.double.leastScale = scale at hvalue ⊢
  exact Format.single.round_of_exact (Nat.two_pow_pos scale) hr hvalue

/-- **Rounding to single precision gives singles**, unless the value is beyond all of them. -/
theorem isSingle_toSingle {v : Binary64} (hfinite : v.toSingle.isFinite = true) :
    v.toSingle.isSingle = true := by
  rw [toSingle] at hfinite ⊢
  split at hfinite
  · next hv =>
    rw [if_pos hv]
    by_cases hr : v.singleRank < Format.single.infinity
    · obtain ⟨hsingle, hrank⟩ := singleRank_ofSingleRank hr
      rw [isSingle, hsingle, hrank, decide_eq_true hr, decide_eq_true rfl]
      rfl
    · rw [ofSingleRank, if_neg hr, isFinite, rank_ofRank le_rfl] at hfinite
      exact absurd (of_decide_eq_true hfinite) (Nat.lt_irrefl _)
  · next hv => exact absurd hfinite hv

end Binary64

end DeclAnalysis
