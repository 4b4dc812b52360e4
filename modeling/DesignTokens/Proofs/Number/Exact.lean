import DesignTokens.Proofs.Number.Rounding

/-!
Words and numbers of one value. A whole number that some word stands for is rounded to that word, and
writing a word as a number keeps its value.
-/

namespace DesignTokens.Binary64

variable {x : Binary64} {z : Int}

theorem isZero_of_value (nothing : x.value = 0) : x.isZero = true := by
  have size : x.magnitude = 0 := by
    rw [value] at nothing
    split at nothing
    · exact neg_eq_zero.mp nothing
    · exact nothing
  rcases mul_eq_zero.mp size with digits | power
  · exact significand_eq_zero_iff.mp (Nat.cast_eq_zero.mp digits)
  · exact absurd power (zpow_ne_zero _ two_ne_zero)

theorem ofInt_of_value (finite : x.isFinite = true) (same : x.value = z) (nonzero : z ≠ 0) :
    ofInt z = x := by
  obtain ⟨size, sign⟩ := value_eq_intCast_iff.mp same
  have quotient : (z.natAbs : ℚ) / (1 : Nat) = x.magnitude := by
    rw [Nat.cast_one, div_one, size]
  rw [ofInt, ← sign nonzero]
  exact ofRatio_magnitude finite Nat.one_pos quotient

theorem sameValue_ofInt_of_value (finite : x.isFinite = true) (same : x.value = z) :
    (ofInt z).sameValue x = true := by
  by_cases zero : z = 0
  · subst zero
    have nothing : x.isZero = true := isZero_of_value (same.trans Int.cast_zero)
    have word : ofInt 0 = Binary64.zero false := by decide
    have number := isNaN_of_isFinite finite
    have positive : (Binary64.zero false).isNaN = false ∧ (Binary64.zero false).isZero = true := by decide
    simp [word, sameValue, number, nothing, positive]
  · rw [ofInt_of_value finite same zero]
    exact sameValue_self finite

theorem sameValue_ofInt (whole : x.whole? = some z) : (ofInt z).sameValue x = true :=
  sameValue_ofInt_of_value (whole?_eq_some whole).1 (whole?_eq_some_iff.mp whole).1

theorem value_ofInt (finite : x.isFinite = true) (same : x.value = z) :
    (ofInt z).isFinite = true ∧ (ofInt z).value = z := by
  have equal := sameValue_ofInt_of_value finite same
  refine ⟨?_, (value_eq_of_sameValue equal).trans same⟩
  by_cases zero : z = 0
  · rw [zero]
    decide
  · rwa [ofInt_of_value finite same zero]

end DesignTokens.Binary64

namespace DesignTokens.Number

def value : Number → ℚ
  | .integer z => z
  | .binary x => x.value

def Exact : Number → Prop
  | .integer z => ∃ x : Binary64, x.isFinite = true ∧ x.value = z
  | .binary x => x.isFinite = true

/-- Whole numbers of 53 bits stand in integer form. -/
def Tidy (n : Number) : Prop :=
  ∀ z : Int, n.value = z → z.natAbs < 2 * Binary64.binade → n = .integer z

/-- A number of the same value, in integer form where that is possible. -/
structure Tidied (n m : Number) : Prop where
  value : m.value = n.value
  tidy : m.Tidy

theorem tidy_integer (z : Int) : (integer z).Tidy := by
  intro z' same _
  have equal : z = z' := Int.cast_inj.mp same
  rw [equal]

theorem tidied_ofBinary64 (x : Binary64) : (binary x).Tidied (.ofBinary64 x) := by
  unfold ofBinary64
  split
  · rename_i z whole
    exact ⟨(Binary64.whole?_eq_some_iff.mp whole).1.symm, tidy_integer z⟩
  · rename_i none
    refine ⟨rfl, ?_⟩
    intro z same small
    rw [Binary64.whole?_eq_some_iff.mpr ⟨same, small⟩] at none
    cases none

theorem ofBinary64_eq_iff {x : Binary64} : ofBinary64 x = .binary x ↔ (binary x).Tidy := by
  constructor
  · intro kept
    exact kept ▸ (tidied_ofBinary64 x).tidy
  · intro tidy
    unfold ofBinary64
    split
    · rename_i z whole
      obtain ⟨same, small⟩ := Binary64.whole?_eq_some_iff.mp whole
      exact (tidy z same small).symm
    · rfl

theorem signed_ofBinary64 {x : Binary64} (finite : x.isFinite = true) : (ofBinary64 x).Signed := by
  unfold ofBinary64
  split
  · rename_i z whole
    have small := (Binary64.whole?_eq_some_iff.mp whole).2
    simp only [Signed, signedLimit, Binary64.binade] at small ⊢
    omega
  · exact finite

theorem fits_ofBinary64 {x : Binary64} (finite : x.isFinite = true) : (ofBinary64 x).Fits :=
  (signed_ofBinary64 finite).fits

theorem Exact.toBinary64 {n : Number} (exact : n.Exact) :
    n.toBinary64.isFinite = true ∧ n.toBinary64.value = n.value := by
  cases n with
  | integer z =>
      obtain ⟨x, finite, same⟩ := exact
      exact Binary64.value_ofInt finite same
  | binary x => exact ⟨exact, rfl⟩

theorem sameValue_toBinary64_ofBinary64 {x : Binary64} (finite : x.isFinite = true) :
    (ofBinary64 x).toBinary64.sameValue x = true := by
  simp only [ofBinary64]
  split
  · rename_i z whole
    exact Binary64.sameValue_ofInt whole
  · exact Binary64.sameValue_self finite

end DesignTokens.Number
