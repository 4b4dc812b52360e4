import DesignTokens.Document.Basic
import Mathlib.Algebra.Group.Nat.Defs

/-! Whole numbers as words: which of them fit, and which words are whole. -/

namespace DesignTokens.Binary64

theorem divPower_two_of_neg {e : Int} (negative : e < 0) (m : Nat) :
    divPower 2 e m 1 = (m * 2 ^ (-e).toNat, 1) := by
  have below : ¬ 0 ≤ e := by omega
  simp [divPower, below]

theorem divPower_two_of_nonneg {e : Int} (positive : 0 ≤ e) (m : Nat) :
    divPower 2 e m 1 = (m, 2 ^ e.toNat) := by
  simp [divPower, positive]

theorem divPower_low_lt {m : Nat} {low : Int} (enough : (Nat.log2 m : Int) - 53 ≤ low) :
    (divPower 2 low m 1).1 < 4 * binade * (divPower 2 low m 1).2 := by
  have size : m < 2 ^ (Nat.log2 m + 1) := Nat.lt_log2_self
  by_cases sign : 0 ≤ low
  · rw [divPower_two_of_nonneg sign]
    calc
      m < 2 ^ (Nat.log2 m + 1) := size
      _ ≤ 2 ^ (54 + low.toNat) := Nat.pow_le_pow_right (by decide) (by omega)
      _ = 4 * binade * 2 ^ low.toNat := Nat.pow_add 2 54 low.toNat
  · rw [divPower_two_of_neg (by omega)]
    calc
      m * 2 ^ (-low).toNat < 2 ^ (Nat.log2 m + 1) * 2 ^ (-low).toNat :=
        Nat.mul_lt_mul_of_pos_right size (Nat.two_pow_pos _)
      _ = 2 ^ (Nat.log2 m + 1 + (-low).toNat) := (Nat.pow_add ..).symm
      _ ≤ 2 ^ 54 := Nat.pow_le_pow_right (by decide) (by omega)
      _ = 4 * binade * 1 := by decide

theorem scaleFor_bounds (m : Nat) :
    max ((Nat.log2 m : Int) - 53) (-1074) ≤ scaleFor m 1 ∧
      scaleFor m 1 ≤ max ((Nat.log2 m : Int) - 53) (-1074) + 1 := by
  have one : Nat.log2 1 = 0 := by decide
  simp only [scaleFor, one]
  split <;> omega

theorem nearestEven_le {n d bound : Nat} (below : n < bound * d) : nearestEven n d ≤ bound := by
  have quotient : n / d < bound := Nat.div_lt_of_lt_mul (by rwa [Nat.mul_comm])
  simp only [nearestEven]
  split
  · omega
  · split <;> omega

theorem ofRank_of_lt {rank : Nat} (negative : Bool) (finite : rank < infiniteRank) :
    ofRank negative rank = ⟨negative, ⟨rank, lt_of_lt_infiniteRank finite⟩⟩ := by
  simp [ofRank, finite]

theorem ofInt_isFinite {z : Int} (small : z.natAbs < Number.unsignedLimit) :
    (ofInt z).isFinite = true := by
  simp only [ofInt, ofRatio]
  split
  · rfl
  · rename_i nonzero
    have digits : Nat.log2 z.natAbs < 64 := (Nat.log2_lt nonzero).mpr small
    have bounds := scaleFor_bounds z.natAbs
    have scaled := @divPower_low_lt z.natAbs (scaleFor z.natAbs 1) (by omega)
    have rounded := nearestEven_le scaled
    have finite : (scaleFor z.natAbs 1 + 1074).toNat * binade +
        nearestEven (divPower 2 (scaleFor z.natAbs 1) z.natAbs 1).1
          (divPower 2 (scaleFor z.natAbs 1) z.natAbs 1).2 < infiniteRank := by
      simp only [infiniteRank, binade] at rounded ⊢
      omega
    rw [ofRank_of_lt _ finite]
    simpa [isFinite] using finite

theorem whole?_eq_some {x : Binary64} {z : Int} (whole : x.whole? = some z) :
    x.isFinite = true ∧ x.ratio.1 % x.ratio.2 = 0 ∧ x.ratio.1 / x.ratio.2 = z.natAbs ∧
      z.natAbs < 2 * binade ∧ (z ≠ 0 → x.negative = decide (z < 0)) := by
  simp only [whole?] at whole
  split at whole
  · rename_i conditions
    obtain ⟨finite, exact, small⟩ := conditions
    generalize x.ratio.1 / x.ratio.2 = m at whole small ⊢
    cases sign : x.negative
    all_goals
      simp only [sign, Bool.false_eq_true, if_false, if_true, Option.some.injEq] at whole
      refine ⟨finite, exact, by omega, by omega, fun nonzero => ?_⟩
      simp
      omega
  · simp at whole

theorem isNaN_of_isFinite {x : Binary64} (finite : x.isFinite = true) : x.isNaN = false := by
  simp only [isFinite, isNaN, decide_eq_true_eq, decide_eq_false_iff_not] at finite ⊢
  omega

theorem sameValue_self {x : Binary64} (finite : x.isFinite = true) : x.sameValue x = true := by
  simp [sameValue, isNaN_of_isFinite finite]

end DesignTokens.Binary64

namespace DesignTokens.Number

/-- A whole number of at most 64 bits, signed or not, or a finite word. -/
def Fits : Number → Prop
  | .integer z => -(signedLimit : Int) ≤ z ∧ z < unsignedLimit
  | .binary x => x.isFinite = true

def Signed : Number → Prop
  | .integer z => -(signedLimit : Int) ≤ z ∧ z < signedLimit
  | .binary x => x.isFinite = true

theorem Signed.fits {n : Number} (signed : n.Signed) : n.Fits := by
  cases n with
  | integer z =>
      obtain ⟨lower, upper⟩ := signed
      simp only [Fits, signedLimit, unsignedLimit] at lower upper ⊢
      omega
  | binary x => exact signed

instance (n : Number) : Decidable n.Fits := by
  cases n with
  | integer z => exact inferInstanceAs (Decidable (_ ∧ _))
  | binary x => exact inferInstanceAs (Decidable (_ = _))

theorem Fits.isFinite {n : Number} (fits : n.Fits) : n.toBinary64.isFinite = true := by
  cases n with
  | integer z =>
      obtain ⟨lower, upper⟩ := fits
      apply Binary64.ofInt_isFinite
      simp only [signedLimit, unsignedLimit] at lower upper ⊢
      omega
  | binary x => exact fits

end DesignTokens.Number
