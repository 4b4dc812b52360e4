import DesignTokens.Proofs.Document.Layers
import DesignTokens.Proofs.Document.MergedPaths

/-!
Changes that were made before. Merging them once more finds every value settled and every name in its
place, and the `null` entries of changes never matter.
-/

namespace DesignTokens.Document

variable {base changes entries : Entries Document} {document lesser value : Document}
  {left : Option Document}

theorem mergeEntries_of_made
    (made : ∀ name change, (name, change) ∈ changes → change.isNull = false →
      ∃ held, base.value? name = some held ∧ merge held change = held) :
    mergeEntries base changes = base := by
  induction changes with
  | nil => rw [mergeEntries]
  | cons head rest ih =>
      rcases head with ⟨first, change⟩
      have later := ih fun name change listed => made name change (List.mem_cons_of_mem _ listed)
      cases speaks : change.isNull with
      | true =>
          cases eq_null speaks
          rw [mergeEntries_null, later]
      | false =>
          rcases made first change List.mem_cons_self speaks with ⟨held, found, same⟩
          rw [mergeEntries_cons speaks, found, settled, same, Entries.put_of_value? found, later]

theorem merge_self (distinct : document.Distinct) : merge document document = document := by
  induction document using induction with
  | null => exact merge_null .null
  | object entries ih =>
      rw [merge_objects, mergeEntries_of_made]
      intro name change listed _
      have below := distinctEntries_iff.mp distinct.2 _ listed
      exact ⟨change, Entries.value?_of_mem distinct.1 listed, ih (name, change) listed below⟩
  | _ => exact merge_leaf _ rfl rfl

theorem merge_merge (base : Document) {changes : Document} (distinct : changes.Distinct) :
    merge (merge base changes) changes = merge base changes := by
  induction changes using induction generalizing base with
  | null => rw [merge_null, merge_null]
  | object entries ih =>
      have names := distinct.names_nodup
      rw [merge_object base names, merge_objects, mergeEntries_of_made]
      intro name change listed speaks
      have named := Entries.value?_of_mem names listed
      have below := distinctEntries_iff.mp distinct.2 _ listed
      refine ⟨_, value?_mergeEntries_of_spoken names named speaks, ?_⟩
      rw [settled_eq]
      exact ih (name, change) listed _ below
  | _ => rw [merge_leaf _ rfl rfl, merge_leaf _ rfl rfl]

theorem names_withoutNullEntries (entries : Entries Document) :
    Entries.names (withoutNullEntries entries) = Entries.names (spoken entries) := by
  rw [withoutNullEntries_eq, Entries.names, List.map_map]
  rfl

theorem withoutNulls_isNull (speaks : value.isNull = false) : value.withoutNulls.isNull = false := by
  cases value with
  | null => cases speaks
  | object entries => rw [withoutNulls]; rfl
  | _ => rw [withoutNulls_leaf rfl]; rfl

theorem mergeEntries_withoutNullEntries (base : Entries Document)
    (each : ∀ entry ∈ entries, ∀ existing, merge existing entry.2.withoutNulls = merge existing entry.2) :
    mergeEntries base (withoutNullEntries entries) = mergeEntries base entries := by
  induction entries generalizing base with
  | nil => rw [withoutNullEntries]
  | cons head rest ih =>
      rcases head with ⟨first, value⟩
      rcases List.forall_mem_cons.mp each with ⟨here, later⟩
      cases speaks : value.isNull with
      | true =>
          cases eq_null speaks
          rw [withoutNullEntries, mergeEntries_null, ih base later]
      | false =>
          have kept : withoutNullEntries ((first, value) :: rest) =
              (first, value.withoutNulls) :: withoutNullEntries rest := by
            rw [withoutNullEntries]
            exact ne_null speaks
          rw [kept, mergeEntries_cons (withoutNulls_isNull speaks), mergeEntries_cons speaks,
            settled_eq, settled_eq, here, ih _ later]

theorem merge_withoutNulls (base : Document) {changes : Document} (distinct : changes.Distinct) :
    merge base changes.withoutNulls = merge base changes := by
  induction changes using induction generalizing base with
  | object entries ih =>
      have fewer : (Entries.names (withoutNullEntries entries)).Nodup := by
        rw [names_withoutNullEntries]
        exact Entries.names_filter_nodup _ distinct.1
      rw [withoutNulls, merge_object base fewer, merge_object base distinct.names_nodup,
        mergeEntries_withoutNullEntries]
      intro entry listed existing
      exact ih entry listed existing (distinctEntries_iff.mp distinct.2 entry listed)
  | _ => rw [withoutNulls_leaf rfl]

/-- The second document is what is left of the first, path by path, once every `null` entry that
objects lead to is removed. -/
structure Cleared (document lesser : Document) : Prop where
  silent : document = .null → lesser = .null
  spoken : document ≠ .null → ∀ path, Left (document.at? path) (lesser.at? path)

theorem cleared_withoutNulls (distinct : document.Distinct) : document.Cleared document.withoutNulls := by
  constructor
  · rintro rfl
    exact withoutNulls_leaf rfl
  · intro proper path
    apply left_withoutNulls distinct
    cases document with
    | null => exact absurd rfl proper
    | _ => rfl

theorem Left.exists_of_spoken (remains : Left (some value) left) (speaks : value.isNull = false) :
    ∃ kept, left = some kept := by
  cases value with
  | null => cases speaks
  | object entries =>
      rcases remains with ⟨others, same, -⟩
      exact ⟨_, same⟩
  | _ => exact ⟨_, remains⟩

theorem Cleared.below {name : String} {rest : Entries Document}
    (cleared : (object entries).Cleared (.object rest)) (given : entries.value? name = some value)
    (speaks : value.isNull = false) : ∃ kept, rest.value? name = some kept ∧ value.Cleared kept := by
  have each (path : List String) := cleared.spoken (by simp) (name :: path)
  simp only [at?_object, given, Option.bind_some] at each
  have here := each []
  rcases here.exists_of_spoken speaks with ⟨last, reached⟩
  rcases Option.bind_eq_some_iff.mp reached with ⟨kept, found, -⟩
  refine ⟨kept, found, ?_, ?_⟩
  · rintro rfl
    cases speaks
  · intro _ path
    have there := each path
    rwa [found] at there

theorem Cleared.absent {name : String} {rest : Entries Document}
    (cleared : (object entries).Cleared (.object rest))
    (quiet : (entries.value? name).getD .null = .null) : rest.value? name = none := by
  have here := cleared.spoken (by simp) [name]
  rw [at?_singleton, at?_singleton] at here
  change Left (entries.value? name) (rest.value? name) at here
  cases given : entries.value? name with
  | none =>
      rw [given] at here
      exact here
  | some value =>
      rw [given] at here quiet
      cases quiet
      exact here

theorem Cleared.eq_withoutNulls (cleared : document.Cleared lesser) (distinct : document.Distinct) :
    lesser = document.withoutNulls := by
  induction document using induction generalizing lesser with
  | null => rw [cleared.silent rfl, withoutNulls_leaf rfl]
  | object entries ih =>
      rcases cleared.spoken (by simp) [] with ⟨rest, same, names⟩
      cases same
      rw [withoutNulls]
      apply congrArg object
      apply Entries.eq_of_names
      · rw [names, names_withoutNullEntries]
      · rw [names]
        exact Entries.names_filter_nodup _ distinct.1
      · intro name
        rw [withoutNullEntries_eq, Entries.value?_map withoutNulls, value?_spoken distinct.1]
        cases given : Entries.value? name entries with
        | none => exact cleared.absent (by rw [given]; rfl)
        | some value =>
            cases speaks : value.isNull with
            | true =>
                cases eq_null speaks
                exact cleared.absent (by rw [given]; rfl)
            | false =>
                rcases cleared.below given speaks with ⟨kept, found, below⟩
                have listed := Entries.mem_of_value? given
                rw [found, ih _ listed below (distinctEntries_iff.mp distinct.2 _ listed),
                  Option.filter_some_pos (by simp [speaks]), Option.map_some]
  | _ => exact Option.some.inj (cleared.spoken (by simp) [])

/--
Merging is idempotent: changes that were merged change nothing more, a document changes nothing in
itself, and clearing changes of their `null` entries beforehand makes no difference.
-/
theorem merge_idempotent (base changes : Document) (distinct : base.Distinct)
    (distinct' : changes.Distinct) :
    (base.merge changes).merge changes = base.merge changes ∧
    base.merge base = base ∧
    (∀ lesser, changes.Cleared lesser → base.merge lesser = base.merge changes) ∧
    changes.Cleared changes.withoutNulls := by
  refine ⟨merge_merge base distinct', merge_self distinct, ?_, cleared_withoutNulls distinct'⟩
  intro lesser cleared
  rw [cleared.eq_withoutNulls distinct']
  exact merge_withoutNulls base distinct'

theorem merge_idempotent_over_null :
    (object [("size", .null), ("list", .array [.null])]).Distinct ∧
    (object [("size", .object [("wide", .text "1"), ("thin", .null)]), ("ink", .null)]).Distinct ∧
    (object [("size", .object [("wide", .text "1")]), ("list", .array [.null])]).merge
        (.object [("size", .object [("wide", .text "1"), ("thin", .null)]), ("ink", .null)]) =
      .object [("size", .object [("wide", .text "1")]), ("list", .array [.null])] ∧
    (object [("size", .null), ("list", .array [.null])]).merge
        (.object [("size", .null), ("list", .array [.null])]) =
      .object [("size", .null), ("list", .array [.null])] ∧
    (object [("size", .null), ("list", .array [.null])]).merge
        (.object [("size", .object [("wide", .text "1")])]) =
      .object [("size", .object [("wide", .text "1")]), ("list", .array [.null])] := by
  have distinct : (object [("size", .null), ("list", .array [.null])]).Distinct := by decide
  have distinct' :
      (object [("size", .object [("wide", .text "1"), ("thin", .null)]), ("ink", .null)]).Distinct := by
    decide
  rcases merge_idempotent _ _ distinct distinct' with ⟨twice, self, less, cleared⟩
  exact ⟨distinct, distinct', twice, self, less _ cleared⟩

end DesignTokens.Document
