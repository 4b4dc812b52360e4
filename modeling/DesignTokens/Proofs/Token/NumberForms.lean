import DesignTokens.Proofs.Document.Compaction
import DesignTokens.Proofs.Json.NumberText
import DesignTokens.Token.Value
import Mathlib.Data.Rat.Floor

/-!
The forms that a word takes in documents. A scalar turned into a document, a scalar written as JSON text and
a compacted document hold the same number, whose value is that of the word.
-/

namespace DesignTokens

variable {x : Binary64} {z : Int}

/-- A value cut off towards zero and held within the signed integers of 64 bits. -/
def toSigned (q : ℚ) : Int :=
  max (-(Number.signedLimit : Int)) (min (Number.signedLimit - 1) (if 0 ≤ q then ⌊q⌋ else ⌈q⌉))

theorem toSigned_intCast (lower : -(Number.signedLimit : Int) ≤ z) (upper : z < Number.signedLimit) :
    toSigned z = z := by
  have whole : (if (0 : ℚ) ≤ z then ⌊(z : ℚ)⌋ else ⌈(z : ℚ)⌉) = z := by
    rw [Int.floor_intCast, Int.ceil_intCast, ite_self]
  rw [toSigned, whole, min_eq_right (by omega), max_eq_right lower]

namespace Binary64

theorem abs_intCast_lt_iff : |(z : ℚ)| < 2 ^ 53 ↔ z.natAbs < 2 * binade := by
  rw [← Int.cast_abs, ← Nat.cast_natAbs]
  norm_cast

theorem whole?_isSome_iff :
    (∃ z, x.whole? = some z) ↔ (∃ z : Int, x.value = z) ∧ |x.value| < 2 ^ 53 := by
  simp only [whole?_eq_some_iff]
  constructor
  · rintro ⟨z, same, small⟩
    exact ⟨⟨z, same⟩, same ▸ abs_intCast_lt_iff.mpr small⟩
  · rintro ⟨⟨z, same⟩, small⟩
    exact ⟨z, same, abs_intCast_lt_iff.mp (same ▸ small)⟩

end Binary64

namespace Number

theorem ofBinary64_eq_integer_iff : ofBinary64 x = .integer z ↔ x.whole? = some z := by
  unfold ofBinary64
  split
  · rename_i w whole
    rw [whole, integer.injEq, Option.some.injEq]
  · rename_i none
    rw [none]
    simp

end Number

theorem Document.ofBinary64_of_isFinite (finite : x.isFinite = true) :
    Document.ofBinary64 x = .number (.ofBinary64 x) := if_pos finite

namespace Token.Scalar

theorem json_number (x : Binary64) : (Scalar.number x).json = Json.numberText (.ofBinary64 x) := by
  rw [json, Number.ofBinary64]
  cases x.whole? <;> rfl

/--
A finite word is turned into one number, in integer form exactly if it is whole and below `2 ^ 53`, and the
text written for it is the text of that number and of no other. Compacting twice is compacting once.
-/
theorem number_forms :
    (∀ x : Binary64, x.isFinite = true → ∃ n : Number, n.Fits ∧
      Document.ofBinary64 x = .number n ∧ (Scalar.number x).toDocument = .number n ∧
      (∀ m : Number, m.Fits → (Json.numberText m = (Scalar.number x).json ↔ m = n)) ∧
      (Document.number (.binary x)).compact = .number n ∧
      n.value = x.value ∧
      ((∃ z, n = .integer z) ↔ (∃ z : Int, x.value = z) ∧ |x.value| < 2 ^ 53) ∧
      ∀ z, n = .integer z → (z : ℚ) = x.value ∧ z = toSigned x.value) ∧
    ∀ document : Document, document.compact.compact = document.compact := by
  refine ⟨fun x finite => ?_, Document.compact_compact⟩
  have fits := Number.fits_ofBinary64 finite
  have written := Document.ofBinary64_of_isFinite finite
  refine ⟨.ofBinary64 x, fits, written, written, ?_, rfl, (Number.tidied_ofBinary64 x).value, ?_, ?_⟩
  · intro m fits'
    rw [json_number]
    exact ⟨Json.numberText_inj fits' fits, fun same => by rw [same]⟩
  · simp only [Number.ofBinary64_eq_integer_iff]
    exact Binary64.whole?_isSome_iff
  · intro z form
    have whole := Number.ofBinary64_eq_integer_iff.mp form
    obtain ⟨same, -⟩ := Binary64.whole?_eq_some_iff.mp whole
    have signed := Number.signed_ofBinary64 finite
    rw [form] at signed
    exact ⟨same.symm, by rw [same, toSigned_intCast signed.1 signed.2]⟩

def least : Binary64 := .ofInt (-9007199254740991)

def beyond : Binary64 := .ofInt 9007199254740992

/-- At the limits: the last word in integer form, the first one beyond, and a zero below zero. -/
theorem number_forms_at_limits :
    ((Scalar.number least).toDocument = .number (.integer (-9007199254740991)) ∧
      least.value = -9007199254740991) ∧
    ((Scalar.number beyond).toDocument = .number (.binary beyond) ∧
      ¬ ((∃ z : Int, beyond.value = z) ∧ |beyond.value| < 2 ^ 53)) ∧
    (Scalar.number (.zero true)).json = "0" := by
  refine ⟨?_, ?_, ?_⟩
  · obtain ⟨n, -, written, shown, -, -, -, -, kept⟩ := number_forms.1 least (by decide)
    have form : Number.ofBinary64 least = .integer (-9007199254740991) := by decide
    rw [Document.ofBinary64_of_isFinite (by decide), form, Document.number.injEq] at written
    subst written
    exact ⟨shown, by simpa using (kept _ rfl).1.symm⟩
  · obtain ⟨n, -, written, shown, -, -, -, whole, -⟩ := number_forms.1 beyond (by decide)
    have form : Number.ofBinary64 beyond = .binary beyond := by decide
    rw [Document.ofBinary64_of_isFinite (by decide), form, Document.number.injEq] at written
    subst written
    refine ⟨shown, fun inside => ?_⟩
    obtain ⟨z, integer⟩ := whole.mpr inside
    cases integer
  · obtain ⟨n, -, written, -, text, -⟩ := number_forms.1 (.zero true) (by decide)
    have form : Number.ofBinary64 (.zero true) = .integer 0 := by decide +kernel
    rw [Document.ofBinary64_of_isFinite (by decide), form, Document.number.injEq] at written
    rw [← (text (.integer 0) (by decide)).mpr written]
    rfl

end Token.Scalar

end DesignTokens
