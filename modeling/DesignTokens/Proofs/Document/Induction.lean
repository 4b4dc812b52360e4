import DesignTokens.Document.Basic

/-! Induction over documents, and the walks over items and entries as maps. -/

namespace DesignTokens.Document

/-- What holds of an array or an object when it holds of everything in it holds of every document. -/
@[elab_as_elim]
theorem induction {motive : Document → Prop} (null : motive .null)
    (bool : ∀ value, motive (.bool value)) (number : ∀ value, motive (.number value))
    (text : ∀ value, motive (.text value))
    (array : ∀ items, (∀ item ∈ items, motive item) → motive (.array items))
    (object : ∀ entries, (∀ entry ∈ entries, motive entry.2) → motive (.object entries))
    (document : Document) : motive document :=
  @Document.rec motive (fun items => ∀ item ∈ items, motive item)
    (fun entries => ∀ entry ∈ entries, motive entry.2) (fun entry => motive entry.2)
    null bool number text array object
    (List.forall_mem_nil _) (fun _ _ first others => List.forall_mem_cons.mpr ⟨first, others⟩)
    (List.forall_mem_nil _) (fun _ _ first others => List.forall_mem_cons.mpr ⟨first, others⟩)
    (fun _ _ below => below) document

theorem compactItems_eq (items : List Document) : compactItems items = items.map compact := by
  induction items with
  | nil => rfl
  | cons item rest ih => rw [compactItems, ih, List.map_cons]

theorem compactEntries_eq (entries : Entries Document) :
    compactEntries entries = entries.map fun entry => (entry.1, entry.2.compact) := by
  induction entries with
  | nil => rfl
  | cons head rest ih => rw [compactEntries, ih, List.map_cons]

end DesignTokens.Document
