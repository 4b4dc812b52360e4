import DesignTokens.Proofs.Document.Alike
import DesignTokens.Proofs.Document.Merging

/-!
Changes in layers. Merging two layers one after the other comes to merging what the two come to, up to
the order of entries, unless the upper one opens an object over a leaf of the lower one.
-/

namespace DesignTokens.Document

/-- Where the upper layer holds an object, the lower one holds an object, `null` or nothing. -/
def Admits (lower upper : Document) : Prop :=
  ∀ path entries leaf, upper.at? path = some (.object entries) → lower.at? path = some leaf →
    leaf.entries? = none → leaf = .null

def opened (document : Document) : Entries Document := document.entries?.getD []

/-- What stands under a name after merging, where a missing base counts as `null`. -/
def layered (existing change : Option Document) : Option Document :=
  match change.filter fun value => !value.isNull with
  | none => existing
  | some value => some (merge (existing.getD .null) value)

variable {base changes : Entries Document} {document value lower upper : Document}
  {existing change : Option Document} {name : String}

theorem value?_opened (name : String) (document : Document) :
    document.opened.value? name = document.field? name := by
  cases document <;> rfl

theorem Distinct.opened (distinct : document.Distinct) : document.opened.names.Nodup := by
  cases document with
  | object entries => exact distinct.names_nodup
  | _ => exact List.nodup_nil

theorem settled_eq (existing : Option Document) (value : Document) :
    settled existing value = merge (existing.getD .null) value := by
  cases existing with
  | some existing => rfl
  | none => cases value <;> simp [settled, merge, withoutNulls]

theorem value?_mergeEntries_eq (distinct : changes.names.Nodup) (name : String) :
    Entries.value? name (mergeEntries base changes) =
      layered (base.value? name) (changes.value? name) := by
  rw [value?_mergeEntries distinct, value?_spoken distinct, layered]
  cases (changes.value? name).filter fun value => !value.isNull with
  | none => rfl
  | some value => exact congrArg some (settled_eq (base.value? name) value)

theorem layered_of_spoken (existing : Option Document) (speaks : value.isNull = false) :
    layered existing (some value) = some (merge (existing.getD .null) value) := by
  rw [layered, Option.filter_some_pos (by simp [speaks])]

theorem layered_of_silent (existing : Option Document) (silent : change.getD .null = .null) :
    layered existing change = existing := by
  cases change with
  | none => rfl
  | some value =>
      obtain rfl : value = .null := silent
      rfl

theorem layered_getD (existing change : Option Document) :
    (layered existing change).getD .null = merge (existing.getD .null) (change.getD .null) := by
  cases silent : (change.getD .null).isNull with
  | true =>
      have nothing := eq_null silent
      rw [layered_of_silent existing nothing, nothing, merge_null]
  | false =>
      cases change with
      | none => cases silent
      | some value =>
          rw [Option.getD_some] at silent ⊢
          rw [layered_of_spoken existing silent, Option.getD_some]

theorem merge_isNull (existing : Document) (speaks : value.isNull = false) :
    (merge existing value).isNull = false := by
  cases value with
  | null => cases speaks
  | _ => cases existing <;> simp [merge, withoutNulls, isNull]

theorem mergeEntries_of_fresh (fresh : (base.names ++ changes.names).Nodup) :
    mergeEntries base changes = base ++ withoutNullEntries changes := by
  induction changes generalizing base with
  | nil => simp [mergeEntries, withoutNullEntries]
  | cons head rest ih =>
      obtain ⟨first, value⟩ := head
      have unknown : first ∉ base.names := Entries.not_mem_of_nodup_append_cons fresh
      cases speaks : value.isNull with
      | true =>
          obtain rfl := eq_null speaks
          rw [mergeEntries_null, withoutNullEntries]
          have skipped := (List.sublist_cons_self first (Entries.names rest)).append_left base.names
          exact ih (fresh.sublist skipped)
      | false =>
          have same : base.names ++ first :: Entries.names rest =
              Entries.names (base ++ [(first, withoutNulls value)]) ++ Entries.names rest := by
            simp [Entries.names]
          rw [mergeEntries_cons speaks, Entries.put_of_fresh _ unknown,
            Entries.value?_eq_none.mpr unknown, settled, ih (same ▸ fresh), withoutNullEntries]
          · simp
          · exact ne_null speaks

theorem merge_object (base : Document) (distinct : changes.names.Nodup) :
    merge base (.object changes) = .object (mergeEntries base.opened changes) := by
  cases closed : base.entries? with
  | some entries =>
      rw [eq_object closed, merge_objects]
      rfl
  | none =>
      have empty : base.opened = [] := by rw [opened, closed]; rfl
      have fresh : mergeEntries [] changes = [] ++ withoutNullEntries changes :=
        mergeEntries_of_fresh distinct
      rw [merge_onto_leaf changes closed, withoutNulls, empty, fresh, List.nil_append]

theorem nodup_names_mergeEntries (distinct : base.names.Nodup) (distinct' : changes.names.Nodup) :
    (Entries.names (mergeEntries base changes)).Nodup := by
  rw [names_mergeEntries distinct', List.nodup_append]
  refine ⟨distinct, ?_, ?_⟩
  · exact Entries.names_filter_nodup _ (Entries.names_filter_nodup _ distinct')
  · rintro known present _ fresh rfl
    obtain ⟨entry, kept, rfl⟩ := List.mem_map.mp fresh
    exact of_decide_eq_true (List.mem_filter.mp kept).2 present

theorem opened_merge (base : Document) (distinct : lower.Distinct)
    (opens : lower.entries? = none → lower = .null) :
    (merge base lower).opened = mergeEntries base.opened lower.opened := by
  cases closed : lower.entries? with
  | some entries =>
      obtain rfl := eq_object closed
      rw [merge_object base distinct.names_nodup]
      rfl
  | none =>
      obtain rfl := opens closed
      rw [merge_null]
      exact (mergeEntries.eq_1 _).symm

theorem Distinct.field_getD (distinct : document.Distinct) (name : String) :
    ((document.field? name).getD .null).Distinct := by
  cases found : document.field? name with
  | none => exact trivial
  | some value => exact distinct.field found

theorem Admits.field (admits : lower.Admits upper) (given : upper.field? name = some value) :
    ((lower.field? name).getD .null).Admits value := by
  intro path entries leaf there here closed
  cases held : lower.field? name with
  | none =>
      rw [held] at here
      cases path with
      | nil =>
          cases here
          rfl
      | cons first rest => cases here
  | some below =>
      rw [held] at here
      exact admits (name :: path) entries leaf ((at?_of_field given path).trans there)
        ((at?_of_field held path).trans here) closed

theorem admits_leaf (lower : Document) (leaf : upper.entries? = none) : lower.Admits upper := by
  intro path entries _ there
  cases path with
  | nil =>
      cases there
      cases leaf
  | cons first rest => simp [at?_cons, field?, leaf] at there

theorem admits_object (opens : lower.entries? = none → lower = .null)
    (each : ∀ name value, changes.value? name = some value →
      ((lower.field? name).getD .null).Admits value) : lower.Admits (.object changes) := by
  intro path entries leaf there here closed
  cases path with
  | nil =>
      cases here
      exact opens closed
  | cons name rest =>
      obtain ⟨value, given, below⟩ := Option.bind_eq_some_iff.mp there
      obtain ⟨found, held, below'⟩ := Option.bind_eq_some_iff.mp here
      have admits := each name value given
      rw [held] at admits
      exact admits rest entries leaf below below' closed

theorem layered_layered (existing change : Option Document) {last : Option Document}
    (each : ∀ value, last = some value →
      ((merge (existing.getD .null) (change.getD .null)).merge value).Alike
        (merge (existing.getD .null) (merge (change.getD .null) value))) :
    Option.Rel Alike (layered (layered existing change) last)
      (layered existing (layered change last)) := by
  cases silent : (last.getD .null).isNull with
  | true =>
      have nothing := eq_null silent
      rw [layered_of_silent _ nothing, layered_of_silent _ nothing]
      exact Alike.rel_refl _
  | false =>
      cases last with
      | none => cases silent
      | some value =>
          rw [Option.getD_some] at silent
          rw [layered_of_spoken _ silent, layered_of_spoken _ silent, layered_getD,
            layered_of_spoken _ (merge_isNull _ silent)]
          exact .some (each value rfl)

/-- Two layers may be merged first. Their own order decides where new names stand. -/
theorem merge_assoc (base lower upper : Document) (distinct : base.Distinct)
    (distinct' : lower.Distinct) (distinct'' : upper.Distinct) (admits : lower.Admits upper) :
    ((base.merge lower).merge upper).Alike (base.merge (lower.merge upper)) := by
  induction upper using induction generalizing base lower with
  | null =>
      rw [merge_null, merge_null]
      exact .refl _
  | object entries ih =>
      have names := distinct''.names_nodup
      have both := nodup_names_mergeEntries distinct'.opened names
      have opens := admits [] entries lower rfl rfl
      rw [merge_object _ names, merge_object lower names, merge_object base both,
        opened_merge base distinct' opens]
      apply Alike.of_rel
      · exact nodup_names_mergeEntries (nodup_names_mergeEntries distinct.opened distinct'.opened) names
      · exact nodup_names_mergeEntries distinct.opened both
      · intro name
        rw [value?_mergeEntries_eq names, value?_mergeEntries_eq distinct'.opened,
          value?_mergeEntries_eq both, value?_mergeEntries_eq names, value?_opened, value?_opened]
        apply layered_layered
        intro value given
        exact ih (name, value) (Entries.mem_of_value? given) _ _ (distinct.field_getD name)
          (distinct'.field_getD name) (distinct''.field given) (admits.field given)
  | _ =>
      rw [merge_leaf _ rfl rfl, merge_leaf lower rfl rfl, merge_leaf base rfl rfl]
      exact .refl _

/-- A later layer fills in what the earlier one names with `null`, once at the top and once below. -/
theorem merge_assoc_three_layers :
    (object [("size", .object [("wide", .null), ("thin", .text "1")]), ("ink", .null)]).Admits
        (.object [("size", .object [("wide", .text "3")]), ("ink", .text "#000000")]) ∧
      (object [("ink", .text "#000000"), ("gap", .text "2"),
          ("size", .object [("thin", .text "1"), ("wide", .text "3")])]).Alike
        (.object [("ink", .text "#000000"), ("gap", .text "2"),
          ("size", .object [("wide", .text "3"), ("thin", .text "1")])]) := by
  have admits :
      (object [("size", .object [("wide", .null), ("thin", .text "1")]), ("ink", .null)]).Admits
        (.object [("size", .object [("wide", .text "3")]), ("ink", .text "#000000")]) := by
    refine admits_object (fun nothing => nomatch nothing) fun name value given => ?_
    rcases List.mem_cons.mp (Entries.mem_of_value? given) with size | ink
    · cases size
      refine admits_object (fun nothing => nomatch nothing) fun name value given => ?_
      cases List.mem_singleton.mp (Entries.mem_of_value? given)
      exact admits_leaf _ rfl
    · cases List.mem_singleton.mp ink
      exact admits_leaf _ rfl
  refine ⟨admits, ?_⟩
  have alike := merge_assoc (.object [("ink", .text "#111111"), ("gap", .text "2")]) _ _
    (by simp [Distinct, DistinctEntries, Entries.names])
    (by simp [Distinct, DistinctEntries, Entries.names])
    (by simp [Distinct, DistinctEntries, Entries.names]) admits
  simpa [merge, mergeEntries, Entries.value?, Entries.put, withoutNulls, withoutNullEntries]
    using alike

/-- An object over a leaf: merged first, it no longer hides what the base holds there. -/
example :
    merge (merge (.object [("k", .object [("x", .null)])]) (.object [("k", .text "2")]))
        (.object [("k", .object [("y", .text "3")])]) =
      .object [("k", .object [("y", .text "3")])] ∧
    merge (.object [("k", .object [("x", .null)])])
        (merge (.object [("k", .text "2")]) (.object [("k", .object [("y", .text "3")])])) =
      .object [("k", .object [("x", .null), ("y", .text "3")])] := by
  constructor <;> rfl

end DesignTokens.Document
