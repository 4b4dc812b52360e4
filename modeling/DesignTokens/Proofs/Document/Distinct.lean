import DesignTokens.Proofs.Document.Lookup
import DesignTokens.Proofs.Entries

/-!
Documents that stand for maps: the names of every object in them are distinct. Readers only make
such documents, since a repeated name takes the place of the first.
-/

namespace DesignTokens.Document

mutual

/-- The names of each object are distinct, in objects and arrays at every depth. -/
def Distinct : Document → Prop
  | .array items => DistinctItems items
  | .object entries => (Entries.names entries).Nodup ∧ DistinctEntries entries
  | _ => True

def DistinctItems : List Document → Prop
  | [] => True
  | item :: rest => item.Distinct ∧ DistinctItems rest

def DistinctEntries : List (String × Document) → Prop
  | [] => True
  | (_, value) :: rest => value.Distinct ∧ DistinctEntries rest

end

mutual

def decideDistinct : (document : Document) → Decidable document.Distinct
  | .array items => decideDistinctItems items
  | .object entries => @instDecidableAnd _ _ _ (decideDistinctEntries entries)
  | .null | .bool _ | .number _ | .text _ => .isTrue trivial

def decideDistinctItems : (items : List Document) → Decidable (DistinctItems items)
  | [] => .isTrue trivial
  | item :: rest => @instDecidableAnd _ _ (decideDistinct item) (decideDistinctItems rest)

def decideDistinctEntries :
    (entries : List (String × Document)) → Decidable (DistinctEntries entries)
  | [] => .isTrue trivial
  | (_, value) :: rest => @instDecidableAnd _ _ (decideDistinct value) (decideDistinctEntries rest)

end

instance : DecidablePred Distinct := decideDistinct

theorem distinctItems_iff {items : List Document} :
    DistinctItems items ↔ ∀ item ∈ items, item.Distinct := by
  induction items with
  | nil => simp [DistinctItems]
  | cons item rest ih => simp [DistinctItems, ih]

theorem distinctEntries_iff {entries : Entries Document} :
    DistinctEntries entries ↔ ∀ entry ∈ entries, entry.2.Distinct := by
  induction entries with
  | nil => simp [DistinctEntries]
  | cons head rest ih =>
      obtain ⟨name, value⟩ := head
      simp [DistinctEntries, ih]

theorem Distinct.names_nodup {entries : Entries Document} (distinct : (object entries).Distinct) :
    (Entries.names entries).Nodup := distinct.1

theorem Distinct.field {name : String} {document value : Document} (distinct : document.Distinct)
    (found : document.field? name = some value) : value.Distinct := by
  obtain ⟨entries, rfl, here⟩ := field?_eq_some found
  exact distinctEntries_iff.mp distinct.2 _ (Entries.mem_of_value? here)

theorem Distinct.at {path : List String} {document value : Document}
    (distinct : document.Distinct) (found : document.at? path = some value) : value.Distinct := by
  induction path generalizing document with
  | nil =>
      cases found
      exact distinct
  | cons name rest ih =>
      obtain ⟨next, step, below⟩ := Option.bind_eq_some_iff.mp found
      exact ih (distinct.field step) below

end DesignTokens.Document
