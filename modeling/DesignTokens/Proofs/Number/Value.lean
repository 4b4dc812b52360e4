import DesignTokens.Proofs.Number.Whole
import Mathlib.Algebra.Order.Field.Rat
import Mathlib.Tactic.Linarith
import Mathlib.Tactic.Ring

/-! The exact values of words, and which words stand for a whole number. -/

namespace DesignTokens.Binary64

def magnitude (x : Binary64) : ℚ := x.significand * 2 ^ x.scale

def value (x : Binary64) : ℚ := if x.negative then -x.magnitude else x.magnitude

theorem magnitude_nonneg (x : Binary64) : 0 ≤ x.magnitude :=
  mul_nonneg (Nat.cast_nonneg _) (zpow_nonneg zero_le_two _)

theorem ratio_pos (x : Binary64) : 0 < x.ratio.2 := by
  by_cases sign : 0 ≤ -x.scale
  · rw [ratio, divPower_two_of_nonneg sign]
    exact Nat.two_pow_pos _
  · rw [ratio, divPower_two_of_neg (by omega)]
    exact Nat.one_pos

theorem magnitude_mul_ratio (x : Binary64) : x.magnitude * x.ratio.2 = x.ratio.1 := by
  by_cases sign : 0 ≤ -x.scale
  · have cancel : (2 : ℚ) ^ x.scale * 2 ^ (-x.scale).toNat = 1 := by
      rw [← zpow_natCast, Int.toNat_of_nonneg sign, ← zpow_add₀ two_ne_zero, add_neg_cancel,
        zpow_zero]
    rw [ratio, divPower_two_of_nonneg sign, magnitude]
    push_cast
    rw [mul_assoc, cancel, mul_one]
  · have power : (2 : ℚ) ^ x.scale = 2 ^ x.scale.toNat := by
      rw [← zpow_natCast, Int.toNat_of_nonneg (by omega)]
    rw [ratio, divPower_two_of_neg (by omega), neg_neg, magnitude, power]
    push_cast
    rw [mul_one]

theorem magnitude_eq_natCast_iff {x : Binary64} {m : Nat} :
    x.magnitude = m ↔ x.ratio.1 = m * x.ratio.2 := by
  have positive : (x.ratio.2 : ℚ) ≠ 0 := Nat.cast_ne_zero.mpr (Nat.ne_of_gt x.ratio_pos)
  rw [← mul_left_inj' positive, magnitude_mul_ratio]
  exact_mod_cast Iff.rfl

theorem value_eq_intCast_iff {x : Binary64} {z : Int} :
    x.value = z ↔ x.magnitude = z.natAbs ∧ (z ≠ 0 → x.negative = decide (z < 0)) := by
  have size : (z.natAbs : ℚ) = |(z : ℚ)| := by
    rw [Nat.cast_natAbs, Int.cast_abs]
  have floor := x.magnitude_nonneg
  rw [value, size]
  cases sign : x.negative with
  | true =>
      rw [if_pos rfl]
      constructor
      · intro same
        have below : (z : ℚ) ≤ 0 := by linarith
        refine ⟨by rw [abs_of_nonpos below, ← same, neg_neg], fun nonzero => ?_⟩
        have strict : z ≤ 0 := by exact_mod_cast below
        simpa using lt_of_le_of_ne strict nonzero
      · intro both
        obtain ⟨same, signs⟩ := both
        by_cases zero : z = 0
        · subst zero
          simpa using same
        · have below : z < 0 := by simpa using signs zero
          have below' : (z : ℚ) < 0 := by exact_mod_cast below
          rw [same, abs_of_neg below', neg_neg]
  | false =>
      rw [if_neg (by decide)]
      constructor
      · intro same
        have above : (0 : ℚ) ≤ z := by linarith
        refine ⟨by rw [abs_of_nonneg above, same], fun _ => ?_⟩
        have whole : 0 ≤ z := by exact_mod_cast above
        simpa using whole
      · intro both
        obtain ⟨same, signs⟩ := both
        by_cases zero : z = 0
        · subst zero
          simpa using same
        · have above : 0 ≤ z := by simpa using signs zero
          have above' : (0 : ℚ) ≤ z := by exact_mod_cast above
          rw [same, abs_of_nonneg above']

theorem isFinite_of_ratio_lt {x : Binary64} (small : x.ratio.1 / x.ratio.2 < 2 * binade) :
    x.isFinite = true := by
  by_contra infinite
  have rank : infiniteRank ≤ x.rank.val := by simpa [isFinite] using infinite
  have field : 2047 ≤ x.exponentField := (Nat.le_div_iff_mul_le (by decide)).mpr rank
  have digits : binade ≤ x.significand := by
    rw [significand, if_neg (by omega)]
    exact Nat.le_add_right _ _
  have places : x.scale.toNat ≠ 0 := by
    simp only [scale]
    omega
  have ratio : x.ratio = (x.significand * 2 ^ x.scale.toNat, 1) := by
    have below : -x.scale < 0 := by omega
    rw [Binary64.ratio, divPower_two_of_neg below, neg_neg]
  have doubled : binade * 2 ≤ x.significand * 2 ^ x.scale.toNat :=
    Nat.mul_le_mul digits (Nat.le_self_pow places 2)
  rw [ratio, Nat.div_one] at small
  omega

/-- The whole numbers of 53 bits are found, and nothing else. -/
theorem whole?_eq_some_iff {x : Binary64} {z : Int} :
    x.whole? = some z ↔ x.value = z ∧ z.natAbs < 2 * binade := by
  constructor
  · intro whole
    obtain ⟨-, exact, quotient, small, sign⟩ := whole?_eq_some whole
    have parts := Nat.div_add_mod x.ratio.1 x.ratio.2
    rw [exact, quotient, Nat.add_zero, Nat.mul_comm] at parts
    exact ⟨value_eq_intCast_iff.mpr ⟨magnitude_eq_natCast_iff.mpr parts.symm, sign⟩, small⟩
  · intro both
    obtain ⟨same, small⟩ := both
    obtain ⟨size, sign⟩ := value_eq_intCast_iff.mp same
    have parts := magnitude_eq_natCast_iff.mp size
    have exact : x.ratio.1 % x.ratio.2 = 0 := by rw [parts, Nat.mul_mod_left]
    have quotient : x.ratio.1 / x.ratio.2 = z.natAbs := by
      rw [parts, Nat.mul_div_cancel _ x.ratio_pos]
    have finite := isFinite_of_ratio_lt (by rwa [quotient])
    have found : x.whole? =
        some (if x.negative then -(z.natAbs : Int) else (z.natAbs : Int)) := by
      simp only [whole?, quotient, exact, finite, small, and_self, if_true]
    rw [found]
    by_cases zero : z = 0
    · simp [zero]
    · rw [sign zero]
      by_cases below : z < 0
      · simp only [below, decide_true, if_true, Option.some.injEq]
        omega
      · simp only [below, decide_false, Bool.false_eq_true, if_false, Option.some.injEq]
        omega

theorem value_of_isZero {x : Binary64} (zero : x.isZero = true) : x.value = 0 := by
  have rank : x.rank.val = 0 := by simpa [isZero] using zero
  have digits : x.significand = 0 := by simp [significand, exponentField, rank]
  simp [value, magnitude, digits]

theorem value_eq_of_sameValue {x y : Binary64} (same : x.sameValue y = true) :
    x.value = y.value := by
  simp only [sameValue, Bool.and_eq_true, Bool.or_eq_true, decide_eq_true_eq] at same
  rcases same.2 with equal | both
  · rw [equal]
  · rw [value_of_isZero both.1, value_of_isZero both.2]

end DesignTokens.Binary64
