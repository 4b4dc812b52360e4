import DesignTokens.Proofs.Document.Layers
import DesignTokens.Proofs.Document.MergedPaths

/-!
Entries that are `null`. Down through objects none of the changes gets into a merged document, but an
array is taken over as it stands, and so are the objects in it.
-/

namespace DesignTokens.Document

inductive Outspoken : Document → Prop
  | leaf {document : Document} (closed : document.entries? = none) : Outspoken document
  | object {entries : Entries Document} (given : ∀ entry ∈ entries, entry.2.isNull = false)
      (each : ∀ entry ∈ entries, Outspoken entry.2) : Outspoken (.object entries)

inductive NullFree : Document → Prop
  | null : NullFree .null
  | bool (value : Bool) : NullFree (.bool value)
  | number (n : Number) : NullFree (.number n)
  | text (s : String) : NullFree (.text s)
  | array {items : List Document} (each : ∀ item ∈ items, NullFree item) : NullFree (.array items)
  | object {entries : Entries Document} (given : ∀ entry ∈ entries, entry.2.isNull = false)
      (each : ∀ entry ∈ entries, NullFree entry.2) : NullFree (.object entries)

variable {base changes leaf value document : Document} {entries : Entries Document}
  {path : List String} {name : String}

theorem outspoken_object : (object entries).Outspoken ↔
    ∀ entry ∈ entries, entry.2.isNull = false ∧ entry.2.Outspoken := by
  constructor
  · intro outspoken entry listed
    cases outspoken with
    | leaf closed => cases closed
    | object given each => exact ⟨given entry listed, each entry listed⟩
  · intro all
    exact .object (fun entry listed => (all entry listed).1) fun entry listed => (all entry listed).2

theorem nullFree_object : (object entries).NullFree ↔
    ∀ entry ∈ entries, entry.2.isNull = false ∧ entry.2.NullFree := by
  constructor
  · intro free entry listed
    cases free with
    | object given each => exact ⟨given entry listed, each entry listed⟩
  · intro all
    exact .object (fun entry listed => (all entry listed).1) fun entry listed => (all entry listed).2

theorem nullFree_array {items : List Document} :
    (array items).NullFree ↔ ∀ item ∈ items, item.NullFree := by
  constructor
  · intro free
    cases free with
    | array each => exact each
  · exact .array

theorem NullFree.outspoken (free : document.NullFree) : document.Outspoken := by
  induction free with
  | object given each ih => exact .object given ih
  | _ => exact .leaf rfl

theorem NullFree.at (free : document.NullFree) (reached : document.at? path = some value) :
    value.NullFree := by
  induction path generalizing document with
  | nil =>
      cases reached
      exact free
  | cons name rest ih =>
      rcases Option.bind_eq_some_iff.mp reached with ⟨next, step, below⟩
      rcases field?_eq_some step with ⟨entries, rfl, named⟩
      exact ih (nullFree_object.mp free _ (Entries.mem_of_value? named)).2 below

theorem Outspoken.withoutNulls_eq (outspoken : document.Outspoken) :
    document.withoutNulls = document := by
  induction outspoken with
  | leaf closed => exact withoutNulls_leaf closed
  | @object entries given each ih =>
      have all : spoken entries = entries := by
        apply List.filter_eq_self.mpr
        intro entry listed
        simp [given entry listed]
      have same : ∀ entry ∈ entries, (entry.1, entry.2.withoutNulls) = entry := by
        intro entry listed
        rw [ih entry listed]
      rw [withoutNulls, withoutNullEntries_eq, all, List.map_congr_left same, List.map_id']

theorem Outspoken.withoutNullEntries_eq (outspoken : (Document.object entries).Outspoken) :
    withoutNullEntries entries = entries := by
  have same := outspoken.withoutNulls_eq
  rwa [withoutNulls, Document.object.injEq] at same

theorem speaks_of_at? (reached : document.at? path = some value) (speaks : value.isNull = false) :
    document.isNull = false := by
  cases document with
  | null =>
      cases path with
      | nil =>
          cases reached
          cases speaks
      | cons name rest => cases reached
  | _ => rfl

/-- What an object has when no entry is `null` and each entry has it goes over from the base to the
merged document, as long as the leaves of the changes have it. -/
theorem holds_merge {holds : Document → Prop} (null : holds .null)
    (objects : ∀ entries, holds (.object entries) ↔
      ∀ entry ∈ entries, entry.2.isNull = false ∧ holds entry.2)
    (distinct : changes.Distinct) (old : holds base)
    (leaves : ∀ path leaf, changes.at? path = some leaf → leaf.entries? = none → holds leaf) :
    holds (merge base changes) := by
  induction changes using induction generalizing base with
  | null => rwa [merge_null]
  | object entries ih =>
      have names := distinct.names_nodup
      have opened : holds (.object base.opened) := by
        cases base with
        | object entries => exact old
        | _ => exact (objects []).mpr (List.forall_mem_nil _)
      rw [merge_object base names, objects]
      rintro ⟨name, value⟩ present
      rcases of_mem_mergeEntries names present with kept | ⟨change, listed, speaks, rfl⟩
      · exact (objects _).mp opened _ kept
      · have given := Entries.value?_of_mem names listed
        have existing : holds ((Entries.value? name base.opened).getD .null) := by
          cases found : Entries.value? name base.opened with
          | none => exact null
          | some held => exact ((objects _).mp opened _ (Entries.mem_of_value? found)).2
        rw [settled_eq]
        constructor
        · exact merge_isNull _ speaks
        · apply ih (name, change) listed (distinctEntries_iff.mp distinct.2 _ listed) existing
          intro path leaf reached closed
          apply leaves (name :: path) leaf _ closed
          rw [at?_object, given]
          exact reached
  | _ =>
      rw [merge_leaf base rfl rfl]
      exact leaves [] _ rfl rfl

theorem at?_merge_of_leaf (distinct : changes.Distinct) (reached : changes.at? path = some leaf)
    (closed : leaf.entries? = none) (speaks : leaf.isNull = false) :
    (merge base changes).at? path = some leaf := by
  induction path generalizing base changes with
  | nil =>
      cases reached
      rw [merge_leaf base closed speaks]
      rfl
  | cons name rest ih =>
      rcases Option.bind_eq_some_iff.mp reached with ⟨change, step, below⟩
      rcases field?_eq_some step with ⟨entries, rfl, given⟩
      rw [merge_object base distinct.names_nodup, at?_object,
        value?_mergeEntries_of_spoken distinct.names_nodup given (speaks_of_at? below speaks),
        settled_eq]
      exact ih (distinct.field step) below

/--
Merging adds no `null` entry that is reached through objects, and none at all exactly when no array
that the changes hold has one.
-/
theorem nullFree_merge_iff (base changes : Document) (distinct : changes.Distinct) :
    (base.Outspoken → (base.merge changes).Outspoken) ∧
    (base.NullFree → ((base.merge changes).NullFree ↔
      ∀ path items, changes.at? path = some (.array items) → (array items).NullFree)) := by
  constructor
  · intro old
    apply holds_merge (.leaf rfl) (fun _ => outspoken_object) distinct old
    intro path leaf _ closed
    exact .leaf closed
  · intro old
    constructor
    · intro merged path items reached
      exact merged.at (at?_merge_of_leaf distinct reached rfl rfl)
    · intro arrays
      apply holds_merge .null (fun _ => nullFree_object) distinct old
      intro path leaf reached closed
      cases leaf with
      | array items => exact arrays path items reached
      | object entries => cases closed
      | null => exact .null
      | bool value => exact .bool value
      | number n => exact .number n
      | text s => exact .text s

theorem nullFree_merge_of_modes :
    (object [("ink", .null), ("size", .object [("wide", .null)]),
      ("modes", .array [.object [("name", .text "dark")]])]).Distinct ∧
    (object [("ink", .text "#000000"), ("modes", .array [])]).NullFree ∧
    (object [("ink", .text "#000000"), ("modes", .array [.object [("name", .text "dark")]]),
      ("size", .object [])]).Outspoken ∧
    (object [("ink", .text "#000000"), ("modes", .array [.object [("name", .text "dark")]]),
      ("size", .object [])]).NullFree := by
  have distinct : (object [("ink", .null), ("size", .object [("wide", .null)]),
      ("modes", .array [.object [("name", .text "dark")]])]).Distinct := by decide
  have free : (object [("ink", .text "#000000"), ("modes", .array [])]).NullFree := by
    simp [nullFree_object, nullFree_array, isNull, NullFree.text]
  rcases nullFree_merge_iff (.object [("ink", .text "#000000"), ("modes", .array [])]) _ distinct
    with ⟨kept, exactly⟩
  refine ⟨distinct, free, kept free.outspoken, (exactly free).mpr ?_⟩
  intro path items reached
  have left := left_withoutNulls distinct rfl path
  rw [reached] at left
  have cleared : (object [("size", .object []),
      ("modes", .array [.object [("name", .text "dark")]])]).NullFree := by
    simp [nullFree_object, nullFree_array, isNull, NullFree.text]
  exact cleared.at left

/-- An object in an array of the changes keeps its `null` entry. -/
theorem null_kept_in_array :
    (object []).NullFree ∧ (object [("a", .array [.object [("b", .null)]])]).Distinct ∧
    (object []).merge (.object [("a", .array [.object [("b", .null)]])]) =
      .object [("a", .array [.object [("b", .null)]])] ∧
    ¬ ((object []).merge (.object [("a", .array [.object [("b", .null)]])])).NullFree := by
  have merged : (object []).merge (.object [("a", .array [.object [("b", .null)]])]) =
      .object [("a", .array [.object [("b", .null)]])] := rfl
  refine ⟨nullFree_object.mpr (List.forall_mem_nil _), by decide, merged, ?_⟩
  rw [merged]
  simp [nullFree_object, nullFree_array, isNull]

end DesignTokens.Document
