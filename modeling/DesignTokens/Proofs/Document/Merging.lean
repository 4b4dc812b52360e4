import DesignTokens.Document.Merge
import DesignTokens.Proofs.Document.Distinct

/-!
What merging two objects makes of each name: changes that are silent on it keep the base, others
decide. The names of the base come first, then the new ones of the changes.
-/

namespace DesignTokens.Document

def isNull : Document → Bool
  | .null => true
  | _ => false

def settled (existing : Option Document) (value : Document) : Document :=
  match existing with
  | some existing => merge existing value
  | none => withoutNulls value

def spoken (entries : Entries Document) : Entries Document :=
  entries.filter fun entry => !entry.2.isNull

theorem ne_null {value : Document} (speaks : value.isNull = false) : value ≠ .null := by
  intro same
  subst same
  cases speaks

theorem eq_null {value : Document} (silent : value.isNull = true) : value = .null := by
  cases value <;> first | rfl | cases silent

theorem mergeEntries_null (base rest : Entries Document) (name : String) :
    mergeEntries base ((name, .null) :: rest) = mergeEntries base rest := by
  rw [mergeEntries]

theorem mergeEntries_cons {base rest : Entries Document} {name : String} {value : Document}
    (speaks : value.isNull = false) :
    mergeEntries base ((name, value) :: rest) =
      mergeEntries (base.put name (settled (base.value? name) value)) rest := by
  rw [mergeEntries]
  · rfl
  · exact ne_null speaks

theorem withoutNullEntries_eq (entries : Entries Document) :
    withoutNullEntries entries =
      (spoken entries).map fun entry => (entry.1, withoutNulls entry.2) := by
  induction entries with
  | nil => rfl
  | cons head rest ih =>
      obtain ⟨name, value⟩ := head
      cases speaks : value.isNull with
      | true =>
          obtain rfl := eq_null speaks
          rw [withoutNullEntries, ih]
          rfl
      | false =>
          rw [withoutNullEntries, ih]
          · simp [spoken, speaks]
          · exact ne_null speaks

theorem spoken_cons {rest : Entries Document} {name : String} {value : Document}
    (speaks : value.isNull = false) : spoken ((name, value) :: rest) = (name, value) :: spoken rest := by
  simp [spoken, speaks]

theorem value?_spoken {entries : Entries Document} (distinct : (Entries.names entries).Nodup)
    (name : String) : Entries.value? name (spoken entries) =
      (Entries.value? name entries).filter fun value => !value.isNull :=
  Entries.value?_filter (fun value => !value.isNull) distinct

theorem names_spoken_subset (entries : Entries Document) :
    Entries.names (spoken entries) ⊆ Entries.names entries := by
  intro name present
  obtain ⟨entry, kept, rfl⟩ := List.mem_map.mp present
  exact List.mem_map.mpr ⟨entry, (List.mem_filter.mp kept).1, rfl⟩

theorem withoutNulls_leaf {value : Document} (leaf : value.entries? = none) :
    withoutNulls value = value := by
  cases value with
  | object entries => cases leaf
  | _ => rw [withoutNulls]; simp

theorem merge_leaf (existing : Document) {value : Document} (leaf : value.entries? = none)
    (speaks : value.isNull = false) : merge existing value = value := by
  cases value with
  | object entries => cases leaf
  | null => cases speaks
  | _ => cases existing <;> rw [merge] <;> simp [withoutNulls]

theorem merge_onto_leaf {existing : Document} (entries : Entries Document)
    (leaf : existing.entries? = none) :
    merge existing (.object entries) = withoutNulls (.object entries) := by
  cases existing with
  | object old => cases leaf
  | _ => rw [merge] <;> simp

theorem settled_leaf (existing : Option Document) {value : Document}
    (leaf : value.entries? = none) (speaks : value.isNull = false) :
    settled existing value = value := by
  cases existing with
  | none => exact withoutNulls_leaf leaf
  | some existing => exact merge_leaf existing leaf speaks

theorem settled_onto_leaf {existing : Option Document} (entries : Entries Document)
    (leaf : existing.bind entries? = none) :
    settled existing (.object entries) = withoutNulls (.object entries) := by
  cases existing with
  | none => rfl
  | some existing => exact merge_onto_leaf entries leaf

theorem value?_mergeEntries {base changes : Entries Document}
    (distinct : (Entries.names changes).Nodup) (name : String) :
    Entries.value? name (mergeEntries base changes) =
      match Entries.value? name (spoken changes) with
      | none => base.value? name
      | some value => some (settled (base.value? name) value) := by
  induction changes generalizing base with
  | nil => rw [mergeEntries]; rfl
  | cons head rest ih =>
      obtain ⟨first, value⟩ := head
      obtain ⟨fresh, others⟩ := List.nodup_cons.mp distinct
      cases speaks : value.isNull with
      | true =>
          obtain rfl := eq_null speaks
          rw [mergeEntries_null, ih others]
          rfl
      | false =>
          rw [mergeEntries_cons speaks, ih others]
          rw [spoken_cons speaks, Entries.value?]
          by_cases same : first = name
          · subst same
            have absent : Entries.value? first (spoken rest) = none := by
              apply Entries.value?_eq_none.mpr
              intro present
              exact fresh (names_spoken_subset rest present)
            rw [absent, if_pos rfl]
            exact Entries.value?_put_self _ _ _
          · rw [if_neg same, Entries.value?_put_of_ne (Ne.symm same)]

theorem value?_mergeEntries_of_silent {base changes : Entries Document} {name : String}
    (distinct : (Entries.names changes).Nodup)
    (silent : changes.value? name = none ∨ changes.value? name = some .null) :
    Entries.value? name (mergeEntries base changes) = base.value? name := by
  rw [value?_mergeEntries distinct, value?_spoken distinct]
  rcases silent with absent | null
  · rw [absent]
    rfl
  · rw [null]
    rfl

theorem value?_mergeEntries_of_spoken {base changes : Entries Document} {name : String}
    {value : Document} (distinct : (Entries.names changes).Nodup)
    (found : changes.value? name = some value) (speaks : value.isNull = false) :
    Entries.value? name (mergeEntries base changes) =
      some (settled (base.value? name) value) := by
  have kept : (some value).filter (fun value => !value.isNull) = some value := by
    simp [Option.filter, speaks]
  rw [value?_mergeEntries distinct, value?_spoken distinct, found, kept]

/-- The names of the base stand first and in their order, then those that only the changes have. -/
theorem names_mergeEntries {base changes : Entries Document}
    (distinct : (Entries.names changes).Nodup) :
    Entries.names (mergeEntries base changes) = Entries.names base ++
      Entries.names ((spoken changes).filter fun entry => entry.1 ∉ Entries.names base) := by
  induction changes generalizing base with
  | nil => simp [mergeEntries, spoken, Entries.names]
  | cons head rest ih =>
      obtain ⟨first, value⟩ := head
      obtain ⟨fresh, others⟩ := List.nodup_cons.mp distinct
      cases speaks : value.isNull with
      | true =>
          obtain rfl := eq_null speaks
          rw [mergeEntries_null, ih others]
          rfl
      | false =>
          rw [mergeEntries_cons speaks, ih others, spoken_cons speaks, Entries.names_put]
          by_cases known : first ∈ Entries.names base
          · rw [if_pos known, List.filter_cons_of_neg (by simpa using known)]
          · have unknown : (spoken rest).filter
                  (fun entry => decide (entry.1 ∉ Entries.names base ++ [first])) =
                (spoken rest).filter fun entry => decide (entry.1 ∉ Entries.names base) := by
              apply List.filter_congr
              intro entry kept
              have other : entry.1 ≠ first := by
                intro same
                subst same
                exact fresh (names_spoken_subset rest (List.mem_map.mpr ⟨entry, kept, rfl⟩))
              simp [other]
            rw [if_neg known, unknown, List.filter_cons_of_pos (by simpa using known)]
            simp [Entries.names]

theorem merge_objects (base changes : Entries Document) :
    merge (.object base) (.object changes) = .object (mergeEntries base changes) := by
  rw [merge]

theorem merge_text_entry (entries : Entries Document) (name s : String) :
    merge (.object entries) (.object [(name, .text s)]) = .object (entries.put name (.text s)) := by
  have replaced : settled (entries.value? name) (.text s) = .text s := by
    cases entries.value? name with
    | none => simp [settled, withoutNulls]
    | some old => cases old <;> simp [settled, merge, withoutNulls]
  rw [merge_objects, mergeEntries_cons rfl, mergeEntries, replaced]

theorem merge_null (base : Document) : merge base .null = base := by
  cases base <;> simp [merge]

theorem field?_merge_text {base : Document} {changes : Entries Document} {name s : String}
    (distinct : (Entries.names changes).Nodup) (given : changes.value? name = some (.text s)) :
    (merge base (.object changes)).field? name = some (.text s) := by
  cases opened : base.entries? with
  | some entries =>
      rw [eq_object opened, merge_objects]
      change Entries.value? name (mergeEntries entries changes) = _
      rw [value?_mergeEntries_of_spoken distinct given rfl, settled_leaf _ rfl rfl]
  | none =>
      rw [merge_onto_leaf changes opened, withoutNulls, withoutNullEntries_eq]
      change Entries.value? name _ = _
      rw [Entries.value?_map, value?_spoken distinct, given]
      rfl

end DesignTokens.Document
