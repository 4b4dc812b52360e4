import DesignTokens.Proofs.Number.Value
import Mathlib.Algebra.Order.Field.Power
import Mathlib.Tactic.FieldSimp
import Mathlib.Tactic.NormNum

/-! Rounding a quotient depends on its value alone, and a quotient that is a word is rounded to it. -/

namespace DesignTokens.Binary64

variable {n d n' d' : Nat} {q : ℚ} {e e' : Int}

theorem divPower_pos {base : Nat} (positive : 0 < base) (e : Int) (n : Nat) (whole : 0 < d) :
    0 < (divPower base e n d).2 := by
  rw [divPower]
  split
  · exact Nat.mul_pos whole (Nat.pow_pos positive)
  · exact whole

theorem divPower_value (base : Nat) (e : Int) (n d : Nat) :
    ((divPower base e n d).1 : ℚ) / (divPower base e n d).2 = n / d / (base : ℚ) ^ e := by
  rw [divPower]
  split
  · rename_i sign
    have power : ((base : ℚ) ^ e) = (base : ℚ) ^ e.toNat := by
      rw [← zpow_natCast, Int.toNat_of_nonneg sign]
    rw [Nat.pow_eq]
    push_cast
    rw [power, div_div]
  · rename_i sign
    have power : ((base : ℚ) ^ e) = ((base : ℚ) ^ (-e).toNat)⁻¹ := by
      rw [← zpow_natCast, Int.toNat_of_nonneg (by omega), ← zpow_neg, neg_neg]
    rw [Nat.pow_eq]
    push_cast
    rw [power, div_inv_eq_mul, mul_div_right_comm]

/-- The quotient is below `2 ^ 53` at the scale, and at no lower one. -/
structure ScaleOf (q : ℚ) (e : Int) : Prop where
  bottom : -1074 ≤ e
  below : q < 2 ^ 53 * 2 ^ e
  least : e = -1074 ∨ 2 ^ 52 * 2 ^ e ≤ q

theorem ScaleOf.le (scale : ScaleOf q e) (other : ScaleOf q e') : e' ≤ e := by
  rcases other.least with lowest | reached
  · exact lowest ▸ scale.bottom
  · have between : (2 : ℚ) ^ e' < 2 ^ (e + 1) := by
      rw [zpow_add_one₀ two_ne_zero]
      linarith [lt_of_le_of_lt reached scale.below]
    have apart := (zpow_lt_zpow_iff_right₀ one_lt_two).mp between
    omega

theorem ScaleOf.unique (scale : ScaleOf q e) (other : ScaleOf q e') : e = e' :=
  le_antisymm (other.le scale) (scale.le other)

theorem log2_bounds (positive : n ≠ 0) :
    (2 : ℚ) ^ (Nat.log2 n : Int) ≤ n ∧ (n : ℚ) < 2 ^ (Nat.log2 n + 1 : Int) := by
  have lower : 2 ^ Nat.log2 n ≤ n := Nat.log2_self_le positive
  have upper : n < 2 ^ (Nat.log2 n + 1) := Nat.lt_log2_self
  constructor
  · rw [zpow_natCast]
    exact_mod_cast lower
  · have cast : (Nat.log2 n + 1 : Int) = ((Nat.log2 n + 1 : Nat) : Int) := by push_cast; rfl
    rw [cast, zpow_natCast]
    exact_mod_cast upper

theorem quotient_bounds (positive : n ≠ 0) (whole : 0 < d) {low : Int}
    (exponent : (Nat.log2 n : Int) - Nat.log2 d - 53 = low) :
    2 ^ 52 * 2 ^ low ≤ (n : ℚ) / d ∧ (n : ℚ) / d < 2 ^ 54 * 2 ^ low := by
  obtain ⟨nLow, nHigh⟩ := log2_bounds positive
  obtain ⟨dLow, dHigh⟩ := log2_bounds (Nat.ne_of_gt whole)
  have dPos : (0 : ℚ) < d := Nat.cast_pos.mpr whole
  constructor
  · rw [le_div_iff₀ dPos]
    calc
      (2 : ℚ) ^ 52 * 2 ^ low * d ≤ 2 ^ 52 * 2 ^ low * 2 ^ (Nat.log2 d + 1 : Int) :=
        mul_le_mul_of_nonneg_left dHigh.le (by positivity)
      _ = 2 ^ (Nat.log2 n : Int) := by
        rw [← zpow_natCast, ← zpow_add₀ two_ne_zero, ← zpow_add₀ two_ne_zero]
        congr 1
        omega
      _ ≤ n := nLow
  · rw [div_lt_iff₀ dPos]
    calc
      (n : ℚ) < 2 ^ (Nat.log2 n + 1 : Int) := nHigh
      _ = 2 ^ 54 * 2 ^ low * 2 ^ (Nat.log2 d : Int) := by
        rw [← zpow_natCast, ← zpow_add₀ two_ne_zero, ← zpow_add₀ two_ne_zero]
        congr 1
        omega
      _ ≤ 2 ^ 54 * 2 ^ low * d := mul_le_mul_of_nonneg_left dLow (by positivity)

theorem divPower_lt_iff (whole : 0 < d) (e : Int) :
    (divPower 2 e n d).1 < 2 * binade * (divPower 2 e n d).2 ↔ (n : ℚ) / d < 2 ^ 53 * 2 ^ e := by
  have value := divPower_value 2 e n d
  have rest : (0 : ℚ) < (divPower 2 e n d).2 := Nat.cast_pos.mpr (divPower_pos two_pos e n whole)
  push_cast at value
  rw [← div_lt_iff₀ (zpow_pos two_pos e), ← value, div_lt_iff₀ rest, ← Nat.cast_lt (α := ℚ)]
  norm_num

theorem scaleFor_spec (positive : n ≠ 0) (whole : 0 < d) : ScaleOf (n / d) (scaleFor n d) := by
  generalize exponent : (Nat.log2 n : Int) - Nat.log2 d - 53 = low
  obtain ⟨deep, high⟩ := quotient_bounds positive whole exponent
  simp only [scaleFor, exponent]
  generalize floor : max low (-1074) = base
  have bottom : -1074 ≤ base := floor ▸ le_max_right _ _
  by_cases fits : (divPower 2 base n d).1 < 2 * binade * (divPower 2 base n d).2
  · rw [if_pos fits]
    refine ⟨bottom, (divPower_lt_iff whole base).mp fits, ?_⟩
    by_cases lowest : low ≤ -1074
    · exact .inl (floor ▸ max_eq_right lowest)
    · have same : base = low := by omega
      exact .inr (same ▸ deep)
  · rw [if_neg fits]
    have reached : 2 ^ 53 * 2 ^ base ≤ (n : ℚ) / d :=
      not_lt.mp (mt (divPower_lt_iff whole base).mpr fits)
    have lifted : (2 : ℚ) ^ low ≤ 2 ^ base :=
      zpow_le_zpow_right₀ one_le_two (floor ▸ le_max_left _ _)
    refine ⟨by omega, ?_, .inr ?_⟩
    · rw [zpow_add_one₀ two_ne_zero]
      linarith
    · rw [zpow_add_one₀ two_ne_zero]
      linarith

theorem quotient_congr (whole : 0 < d) (whole' : 0 < d') (same : n * d' = n' * d) :
    n / d = n' / d' :=
  calc
    n / d = n * d' / (d * d') := (Nat.mul_div_mul_right _ _ whole').symm
    _ = n' * d / (d' * d) := by rw [same, Nat.mul_comm d d']
    _ = n' / d' := Nat.mul_div_mul_right _ _ whole

theorem nearestEven_congr (whole : 0 < d) (whole' : 0 < d') (same : n * d' = n' * d) :
    nearestEven n d = nearestEven n' d' := by
  have quotient := quotient_congr whole whole' same
  have parts := Nat.div_add_mod n d
  have parts' := Nat.div_add_mod n' d'
  have remainder : n % d * d' = n' % d' * d := by
    have left : n % d * d' + d * (n / d) * d' = n * d' := by
      rw [← Nat.add_mul, Nat.add_comm, parts]
    have right : n' % d' * d + d * (n / d) * d' = n' * d := by
      rw [quotient, Nat.mul_assoc d, Nat.mul_comm d, Nat.mul_comm (n' / d'), ← Nat.add_mul,
        Nat.add_comm, parts']
    omega
  have doubled : 2 * (n % d) * d' = 2 * (n' % d') * d := by
    rw [Nat.mul_assoc, remainder, Nat.mul_assoc]
  have below : 2 * (n % d) < d ↔ 2 * (n' % d') < d' :=
    calc
      2 * (n % d) < d ↔ 2 * (n % d) * d' < d * d' := (Nat.mul_lt_mul_right whole').symm
      _ ↔ 2 * (n' % d') * d < d' * d := by rw [doubled, Nat.mul_comm d]
      _ ↔ 2 * (n' % d') < d' := Nat.mul_lt_mul_right whole
  have above : d < 2 * (n % d) ↔ d' < 2 * (n' % d') :=
    calc
      d < 2 * (n % d) ↔ d * d' < 2 * (n % d) * d' := (Nat.mul_lt_mul_right whole').symm
      _ ↔ d' * d < 2 * (n' % d') * d := by rw [doubled, Nat.mul_comm d]
      _ ↔ d' < 2 * (n' % d') := Nat.mul_lt_mul_right whole
  simp only [nearestEven, quotient, below, above]

theorem nearestEven_mul (m : Nat) (whole : 0 < d) : nearestEven (m * d) d = m := by
  simp [nearestEven, Nat.mul_div_cancel m whole, whole]

theorem natDiv_eq_iff (whole : 0 < d) (whole' : 0 < d') :
    (n : ℚ) / d = n' / d' ↔ n * d' = n' * d := by
  have apart : (d : ℚ) ≠ 0 := Nat.cast_ne_zero.mpr (Nat.ne_of_gt whole)
  have apart' : (d' : ℚ) ≠ 0 := Nat.cast_ne_zero.mpr (Nat.ne_of_gt whole')
  rw [div_eq_div_iff apart apart']
  exact_mod_cast Iff.rfl

theorem scaleFor_congr (positive : n ≠ 0) (positive' : n' ≠ 0) (whole : 0 < d) (whole' : 0 < d')
    (same : (n : ℚ) / d = n' / d') : scaleFor n d = scaleFor n' d' :=
  (scaleFor_spec positive whole).unique (same ▸ scaleFor_spec positive' whole')

theorem ofRatio_congr (negative : Bool) (whole : 0 < d) (whole' : 0 < d')
    (same : (n : ℚ) / d = n' / d') : ofRatio negative n d = ofRatio negative n' d' := by
  have crossed := (natDiv_eq_iff whole whole').mp same
  by_cases zero : n = 0
  · have zero' : n' = 0 := by
      rw [zero, Nat.zero_mul] at crossed
      exact (Nat.mul_eq_zero.mp crossed.symm).resolve_right (Nat.ne_of_gt whole)
    rw [zero, zero', ofRatio, ofRatio, if_pos rfl, if_pos rfl]
  · have positive' : n' ≠ 0 := by
      intro zero'
      rw [zero', Nat.zero_mul] at crossed
      exact zero ((Nat.mul_eq_zero.mp crossed).resolve_right (Nat.ne_of_gt whole'))
    have scale := scaleFor_congr zero positive' whole whole' same
    have rest := divPower_pos two_pos (scaleFor n' d') n whole
    have rest' := divPower_pos two_pos (scaleFor n' d') n' whole'
    have rounded := nearestEven_congr rest rest' ((natDiv_eq_iff rest rest').mp (by
      rw [divPower_value, divPower_value, same]))
    simp only [ofRatio, zero, positive', if_false, scale, rounded]

theorem significand_lt {x : Binary64} : x.significand < 2 * binade := by
  have remainder : x.rank.val % binade < binade := Nat.mod_lt _ (by decide)
  rw [significand]
  split
  · have below : x.rank.val < binade := Nat.lt_of_div_eq_zero (by decide) ‹_›
    omega
  · omega

theorem significand_eq_zero_iff {x : Binary64} : x.significand = 0 ↔ x.isZero = true := by
  rw [significand, isZero, decide_eq_true_eq]
  split
  · exact Iff.rfl
  · rename_i normal
    constructor
    · intro nothing
      exact absurd (Nat.eq_zero_of_add_eq_zero_right nothing) (by decide)
    · intro zero
      rw [exponentField, zero] at normal
      exact absurd (Nat.zero_div _) normal

theorem eq_zero_of_isZero {x : Binary64} (zero : x.isZero = true) : x = .zero x.negative := by
  have rank : x.rank.val = 0 := by simpa [isZero] using zero
  obtain ⟨negative, number⟩ := x
  have low : number = ⟨0, by decide⟩ := Fin.ext rank
  rw [low, Binary64.zero]

theorem scaleOf_magnitude (x : Binary64) : ScaleOf x.magnitude x.scale := by
  have power : (0 : ℚ) < 2 ^ x.scale := zpow_pos two_pos _
  have digits : (x.significand : ℚ) < 2 ^ 53 := by
    have small : x.significand < 2 ^ 53 := significand_lt
    exact_mod_cast small
  refine ⟨by rw [scale]; omega, mul_lt_mul_of_pos_right digits power, ?_⟩
  by_cases low : x.exponentField = 0
  · exact .inl (by rw [scale, low]; rfl)
  · have high : 2 ^ 52 ≤ x.significand := by
      rw [significand, if_neg low]
      exact Nat.le_add_right _ _
    exact .inr (mul_le_mul_of_nonneg_right (by exact_mod_cast high) power.le)

theorem scale_add_significand {x : Binary64} :
    (x.scale + 1074).toNat * binade + x.significand = x.rank.val := by
  have whole : binade * x.exponentField + x.rank.val % binade = x.rank.val :=
    Nat.div_add_mod x.rank.val binade
  by_cases low : x.exponentField = 0
  · have shift : (x.scale + 1074).toNat = 0 := by
      rw [scale, low]
      rfl
    rw [shift, Nat.zero_mul, Nat.zero_add, significand, if_pos low]
  · obtain ⟨field, next⟩ := Nat.exists_eq_succ_of_ne_zero low
    have shift : (x.scale + 1074).toNat = field := by
      rw [scale]
      omega
    rw [shift, significand, if_neg low, ← whole, next, Nat.mul_comm binade, Nat.succ_mul,
      Nat.add_assoc]
    simp

/-- A quotient that is the magnitude of a finite word is rounded to that word. -/
theorem ofRatio_magnitude {x : Binary64} (finite : x.isFinite = true) (whole : 0 < d)
    (same : (n : ℚ) / d = x.magnitude) : ofRatio x.negative n d = x := by
  by_cases zero : n = 0
  · have nothing : x.magnitude = 0 := by rw [← same, zero, Nat.cast_zero, zero_div]
    have digits : x.significand = 0 := by
      rcases mul_eq_zero.mp nothing with digits | power
      · exact_mod_cast digits
      · exact absurd power (zpow_ne_zero _ two_ne_zero)
    rw [ofRatio, if_pos zero, ← eq_zero_of_isZero (significand_eq_zero_iff.mp digits)]
  · have spec := scaleFor_spec zero whole
    rw [same] at spec
    have scale : scaleFor n d = x.scale := spec.unique x.scaleOf_magnitude
    have rest := divPower_pos two_pos x.scale n whole
    have value := divPower_value 2 x.scale n d 
    rw [same, magnitude, Nat.cast_ofNat, mul_div_cancel_right₀ _ (zpow_ne_zero _ two_ne_zero),
      div_eq_iff (Nat.cast_ne_zero.mpr (Nat.ne_of_gt rest))] at value
    have exact : (divPower 2 x.scale n d).1 = x.significand * (divPower 2 x.scale n d).2 := by
      exact_mod_cast value
    have bounded : x.rank.val < infiniteRank := by simpa [isFinite] using finite
    simp only [ofRatio, zero, if_false, scale]
    rw [exact, nearestEven_mul _ rest, scale_add_significand, ofRank_of_lt _ bounded]

end DesignTokens.Binary64
