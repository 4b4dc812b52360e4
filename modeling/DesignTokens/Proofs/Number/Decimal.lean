import DesignTokens.Number.Decimal
import DesignTokens.Proofs.Number.Rounding

/-!
Decimals read back as words. A decimal is read by its value alone, so the zeros at its end and the
place of its point do not matter, and the decimal that a finite word is written as reads back to it.
-/

namespace DesignTokens

namespace Binary64

variable {x : Binary64}

theorem magnitude_lt (finite : x.isFinite = true) : x.magnitude < 10 ^ (309 : Int) := by
  have rank : x.rank.val < infiniteRank := by simpa [isFinite] using finite
  have field : x.exponentField < 2047 := Nat.div_lt_of_lt_mul (by rwa [Nat.mul_comm])
  have top : x.scale ≤ 971 := by
    rw [scale]
    omega
  have digits : (x.significand : ℚ) < 2 ^ (53 : Int) := by
    have small : x.significand < 2 ^ 53 := significand_lt
    exact_mod_cast small
  calc
    x.magnitude < 2 ^ (53 : Int) * 2 ^ x.scale :=
      mul_lt_mul_of_pos_right digits (zpow_pos two_pos _)
    _ ≤ 2 ^ (53 : Int) * 2 ^ (971 : Int) :=
      mul_le_mul_of_nonneg_left (zpow_le_zpow_right₀ one_le_two top) (by positivity)
    _ ≤ 10 ^ (309 : Int) := by
      have powers : 2 ^ 53 * 2 ^ 971 ≤ 10 ^ 309 := by decide +kernel
      exact_mod_cast powers

theorem le_magnitude (some : x.isZero = false) : 10 ^ (-324 : Int) ≤ x.magnitude := by
  have digits : 1 ≤ x.significand := by
    rw [Nat.one_le_iff_ne_zero, Ne, significand_eq_zero_iff, some]
    decide
  have bottom : -1074 ≤ x.scale := x.scaleOf_magnitude.bottom
  calc
    (10 : ℚ) ^ (-324 : Int) ≤ 2 ^ (-1074 : Int) := by
      have powers : 2 ^ 1074 ≤ 10 ^ 324 := by decide +kernel
      rw [zpow_neg, zpow_neg]
      exact inv_anti₀ (by positivity) (by exact_mod_cast powers)
    _ ≤ 2 ^ x.scale := zpow_le_zpow_right₀ one_le_two bottom
    _ ≤ x.magnitude := le_mul_of_one_le_left (by positivity) (by exact_mod_cast digits)

end Binary64

namespace Decimal

variable {x y : Decimal} {word : Binary64} {tie : Tie}

def value (x : Decimal) : ℚ := x.digits * 10 ^ x.exponent

theorem value_eq_zero_iff : x.value = 0 ↔ x.digits = 0 := by
  rw [value, mul_eq_zero_iff_right (zpow_ne_zero _ (by norm_num)), Nat.cast_eq_zero]

theorem value_lt (x : Decimal) : x.value < 10 ^ x.places := by
  have count : x.digits < 10 ^ (digitChars x.digits).length :=
    (Nat.length_toDigits_le_iff (by decide) Nat.length_toDigits_pos).mp le_rfl
  rw [value, places, zpow_add₀ (by norm_num), zpow_natCast]
  exact mul_lt_mul_of_pos_right (by exact_mod_cast count) (zpow_pos (by norm_num) _)

theorem le_value (some : x.digits ≠ 0) : 10 ^ (x.places - 1) ≤ x.value := by
  have reached : 10 ^ ((digitChars x.digits).length - 1) ≤ x.digits := by
    by_cases single : (digitChars x.digits).length - 1 = 0
    · rw [single]
      exact Nat.pos_of_ne_zero some
    · by_contra below
      have shorter : (digitChars x.digits).length ≤ (digitChars x.digits).length - 1 :=
        (Nat.length_toDigits_le_iff (by decide) (by omega)).mpr (by omega)
      omega
  have positive : 0 < (digitChars x.digits).length := Nat.length_toDigits_pos
  have shift : x.places - 1 = (((digitChars x.digits).length - 1 : Nat) : Int) + x.exponent := by
    rw [places]
    omega
  rw [value, shift, zpow_add₀ (by norm_num), zpow_natCast]
  exact mul_le_mul_of_nonneg_right (by exact_mod_cast reached) (by positivity)

theorem places_le {e : Int} (some : x.digits ≠ 0) (below : x.value < 10 ^ e) : x.places ≤ e := by
  have apart : (10 : ℚ) ^ (x.places - 1) < 10 ^ e := lt_of_le_of_lt (le_value some) below
  have ordered := (zpow_lt_zpow_iff_right₀ (by norm_num)).mp apart
  omega

theorem lt_places {e : Int} (above : 10 ^ e ≤ x.value) : e < x.places :=
  (zpow_lt_zpow_iff_right₀ (by norm_num : (1 : ℚ) < 10)).mp (lt_of_le_of_lt above x.value_lt)

theorem places_congr (same : x.value = y.value) (some : x.digits ≠ 0) : x.places = y.places := by
  have some' : y.digits ≠ 0 := fun zero =>
    some (value_eq_zero_iff.mp (same.trans (value_eq_zero_iff.mpr zero)))
  have upper := places_le some (same ▸ y.value_lt)
  have lower := places_le some' (same ▸ x.value_lt)
  omega

theorem ratio_value (x : Decimal) :
    ((Binary64.divPower 10 (-x.exponent) x.digits 1).1 : ℚ) /
      (Binary64.divPower 10 (-x.exponent) x.digits 1).2 = x.value := by
  rw [Binary64.divPower_value, value, Nat.cast_one, div_one, Nat.cast_ofNat, zpow_neg, div_inv_eq_mul]

theorem toBinary64_congr (same : x.value = y.value) (negative : Bool) :
    x.toBinary64 negative = y.toBinary64 negative := by
  by_cases zero : x.digits = 0
  · have zero' : y.digits = 0 := value_eq_zero_iff.mp (same ▸ value_eq_zero_iff.mpr zero)
    rw [toBinary64, toBinary64, if_pos (.inl zero), if_pos (.inl zero')]
  · have zero' : y.digits ≠ 0 := fun none =>
      zero (value_eq_zero_iff.mp (same.trans (value_eq_zero_iff.mpr none)))
    have rounded : Binary64.ofRatio negative (Binary64.divPower 10 (-x.exponent) x.digits 1).1
          (Binary64.divPower 10 (-x.exponent) x.digits 1).2 =
        Binary64.ofRatio negative (Binary64.divPower 10 (-y.exponent) y.digits 1).1
          (Binary64.divPower 10 (-y.exponent) y.digits 1).2 :=
      Binary64.ofRatio_congr negative
        (Binary64.divPower_pos (by decide) _ _ Nat.one_pos)
        (Binary64.divPower_pos (by decide) _ _ Nat.one_pos)
        (by rw [ratio_value, ratio_value, same])
    simp only [toBinary64, zero, zero', places_congr same zero, rounded]

theorem toBinary64_of_magnitude (finite : word.isFinite = true) (same : x.value = word.magnitude) :
    x.toBinary64 word.negative = word := by
  by_cases zero : x.digits = 0
  · have nothing : word.magnitude = 0 := same ▸ value_eq_zero_iff.mpr zero
    have none : word.isZero = true := by
      by_contra some
      have reached := Binary64.le_magnitude (Bool.eq_false_of_not_eq_true some)
      rw [nothing] at reached
      exact absurd reached (not_le.mpr (zpow_pos (by norm_num) _))
    rw [toBinary64, if_pos (.inl zero), ← Binary64.eq_zero_of_isZero none]
  · have some : word.isZero = false := by
      apply Bool.eq_false_of_not_eq_true
      intro none
      have digits := Binary64.significand_eq_zero_iff.mpr none
      rw [Binary64.magnitude, digits, Nat.cast_zero, zero_mul] at same
      exact zero (value_eq_zero_iff.mp same)
    have high := places_le zero (same ▸ Binary64.magnitude_lt finite)
    have low := lt_places (same ▸ Binary64.le_magnitude some)
    rw [toBinary64, if_neg (by omega), if_neg (by omega)]
    exact Binary64.ofRatio_magnitude finite (Binary64.divPower_pos (by decide) _ _ Nat.one_pos)
      (x.ratio_value.trans same)

theorem value_exact (word : Binary64) : (exact word).value = word.magnitude := by
  rw [exact, Binary64.magnitude]
  split
  · rename_i sign
    have power : (2 : ℚ) ^ word.scale = 2 ^ word.scale.toNat := by
      rw [← zpow_natCast, Int.toNat_of_nonneg sign]
    rw [value, power, Nat.pow_eq]
    push_cast
    rw [mul_one]
  · rename_i sign
    have power : (5 : ℚ) ^ (-word.scale).toNat = 5 ^ (-word.scale) := by
      rw [← zpow_natCast, Int.toNat_of_nonneg (by omega)]
    have factors : (10 : ℚ) ^ word.scale = 5 ^ word.scale * 2 ^ word.scale := by
      rw [← mul_zpow]
      norm_num
    rw [value, Nat.pow_eq]
    push_cast
    rw [power, factors, mul_assoc, ← mul_assoc (5 ^ (-word.scale)), ← zpow_add₀ (by norm_num),
      neg_add_cancel, zpow_zero, one_mul]

theorem value_trimBy (steps : Nat) (x : Decimal) : (trimBy steps x).value = x.value := by
  induction steps generalizing x with
  | zero => rfl
  | succ steps ih =>
      rw [trimBy]
      split
      · rename_i tens
        have parts : x.digits = x.digits / 10 * 10 :=
          (Nat.div_mul_cancel (Nat.dvd_of_mod_eq_zero tens)).symm
        rw [ih, value, value, zpow_add_one₀ (by norm_num), mul_comm ((10 : ℚ) ^ x.exponent),
          ← mul_assoc]
        conv_rhs => rw [parts]
        push_cast
        rfl
      · rfl

theorem value_trim (x : Decimal) : (trim x).value = x.value := by
  rw [trim]
  split
  · rfl
  · exact value_trimBy _ x

theorem readsBack_of_choose {n d : Nat} {grid : Int} {found : Decimal}
    (chosen : choose tie word n d grid = some found) : readsBack word found = true := by
  simp only [choose] at chosen
  split at chosen
  · cases chosen
  · rename_i below above
    cases chosen
    exact below
  · rename_i below above
    cases chosen
    exact above
  · rename_i below above
    split at chosen
    · cases chosen
      exact below
    · split at chosen
      · cases chosen
        exact above
      · cases tie with
        | up =>
            cases chosen
            exact above
        | even =>
            simp only [Option.some.injEq] at chosen
            subst chosen
            split
            · exact below
            · exact above

/-- A finite word is written as a decimal that reads back to it. -/
theorem toBinary64_shortest (tie : Tie) (finite : word.isFinite = true) :
    (shortest tie word).toBinary64 word.negative = word := by
  rw [shortest]
  split
  · rename_i zero
    rw [toBinary64, if_pos (.inl rfl), ← Binary64.eq_zero_of_isZero zero]
  · rw [toBinary64_congr (value_trim _)]
    generalize search : List.findSome? _ (List.range 17) = found
    cases found with
    | none => exact toBinary64_of_magnitude finite (value_exact word)
    | some candidate =>
        obtain ⟨extra, -, chosen⟩ := List.exists_of_findSome?_eq_some search
        have back := readsBack_of_choose chosen
        simpa [readsBack] using back

theorem digits_shortest (finite : word.isFinite = true) (some : word.isZero = false) :
    (shortest tie word).digits ≠ 0 := by
  intro zero
  have back := toBinary64_shortest tie finite
  rw [toBinary64, if_pos (.inl zero)] at back
  rw [← back] at some
  exact absurd some (by simp [Binary64.isZero, Binary64.zero])

end Decimal

end DesignTokens
