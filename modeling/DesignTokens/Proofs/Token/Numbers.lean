import DesignTokens.Proofs.Number.Whole
import DesignTokens.Proofs.Token.Resolution

/-! Numbers that a tree resolves to are finite, as long as the tree holds numbers that documents have. -/

namespace DesignTokens.Token.Tree

/-- Every number that can be reached in a tree is one that readers of documents make. -/
def NumbersFit (tree : Tree) : Prop :=
  ∀ path n, tree.toDocument.at? path = some (.number n) → n.Fits

theorem NumbersFit.isFinite {tree : Tree} {text : String} {x : Binary64} (fit : tree.NumbersFit)
    (reads : tree.resolveAt text = .ok (.number x)) : x.isFinite = true := by
  have outcome := tree.resolveAt_outcome text
  rw [reads] at outcome
  cases outcome with
  | ended reached asked ends =>
      cases ends with
      | literal declares literal =>
          cases literal with
          | number n => exact (fit _ n declares).isFinite

mutual

def numbersFit : Document → Bool
  | .number n => decide n.Fits
  | .object entries => numbersFitIn entries
  | _ => true

def numbersFitIn : List (String × Document) → Bool
  | [] => true
  | (_, value) :: rest => numbersFit value && numbersFitIn rest

end

theorem numbersFitIn_iff {entries : Entries Document} : numbersFitIn entries = true ↔
    ∀ entry ∈ entries, numbersFit entry.2 = true := by
  induction entries with
  | nil => simp [numbersFitIn]
  | cons head rest ih => simp [numbersFitIn, ih]

theorem numbersFitIn_value? {name : String} {entries : Entries Document} {value : Document}
    (all : numbersFitIn entries = true) (found : entries.value? name = some value) :
    numbersFit value = true := by
  induction entries with
  | nil => cases found
  | cons head rest ih =>
      obtain ⟨key, first⟩ := head
      obtain ⟨here, later⟩ := Bool.and_eq_true_iff.mp all
      by_cases same : key = name
      · simp only [Entries.value?, same, if_true, Option.some.injEq] at found
        exact found ▸ here
      · simp only [Entries.value?, same, if_false] at found
        exact ih later found

theorem numbersFit_of_check {tree : Tree} (all : numbersFit tree.toDocument = true) :
    tree.NumbersFit := by
  intro path n reached
  generalize tree.toDocument = document at all reached
  induction path generalizing document with
  | nil =>
      cases reached
      simpa [numbersFit] using all
  | cons name rest ih =>
      obtain ⟨next, step, below⟩ := Option.bind_eq_some_iff.mp reached
      obtain ⟨entries, rfl, found⟩ := Document.field?_eq_some step
      exact ih next (numbersFitIn_value? all found) below

end DesignTokens.Token.Tree
