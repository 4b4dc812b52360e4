import DesignTokens.Proofs.Document.Merging

/-!
What a merged document holds at each path. Along names at which both sides hold objects it holds an
object too; at the first name at which they part the changes decide, unless they are silent.
-/

namespace DesignTokens.Document

def BothObjects (base changes : Document) (path : List String) : Prop :=
  ∃ old new, base.at? path = some (.object old) ∧ changes.at? path = some (.object new)

/-- What is left of a value when every `null` entry is dropped, down through objects. -/
def Left : Option Document → Option Document → Prop
  | none, left => left = none
  | some .null, left => left = none
  | some (.object entries), left => ∃ others, left = some (.object others) ∧
      Entries.names others = Entries.names (spoken entries)
  | some value, left => left = some value

/-- What a merged document holds along a path whose first names, before a position, lead to objects
on both sides. -/
structure Merged (base changes merged : Document) (path : List String) (j : Nat) : Prop where
  kept : changes.at? (path.take j) = none ∨ changes.at? (path.take j) = some .null →
    merged.at? path = base.at? path
  replaced : ∀ leaf, changes.at? (path.take j) = some leaf → leaf.entries? = none →
    leaf.isNull = false → merged.at? (path.take j) = some leaf ∧
      (j < path.length → merged.at? path = none)
  introduced : ∀ entries, changes.at? (path.take j) = some (.object entries) →
    (base.at? (path.take j)).bind entries? = none → Left (changes.at? path) (merged.at? path)

theorem at?_merge_objects {base changes : Document} {path : List String}
    {old new : Entries Document} (distinct : changes.Distinct)
    (there : base.at? path = some (.object old)) (here : changes.at? path = some (.object new)) :
    (merge base changes).at? path = some (.object (mergeEntries old new)) := by
  induction path generalizing base changes with
  | nil =>
      cases there
      cases here
      rw [merge_objects]
      rfl
  | cons name rest ih =>
      obtain ⟨inner, found, below⟩ := Option.bind_eq_some_iff.mp there
      obtain ⟨change, given, below'⟩ := Option.bind_eq_some_iff.mp here
      obtain ⟨entries, rfl, named⟩ := field?_eq_some found
      obtain ⟨edits, rfl, named'⟩ := field?_eq_some given
      have speaks : change.isNull = false := by
        cases silent : change.isNull with
        | false => rfl
        | true =>
            obtain rfl := eq_null silent
            cases rest <;> cases below'
      have step : Entries.value? name (mergeEntries entries edits) = some (merge inner change) := by
        rw [value?_mergeEntries_of_spoken distinct.names_nodup named' speaks, named]
        rfl
      rw [merge_objects, at?_cons, field?, entries?, Option.bind_some, step]
      exact ih (distinct.field given) below below'

theorem at?_leaf {leaf : Document} (closed : leaf.entries? = none) {rest : List String}
    (below : rest ≠ []) : leaf.at? rest = none := by
  cases rest with
  | nil => exact absurd rfl below
  | cons name rest => simp [at?_cons, field?, closed]

theorem left_leaf {value : Document} (closed : value.entries? = none)
    (speaks : value.isNull = false) : Left (some value) (some value) := by
  cases value with
  | null => cases speaks
  | object entries => cases closed
  | _ => rfl

theorem field?_withoutNulls {value : Document} (distinct : value.Distinct) (name : String) :
    value.withoutNulls.field? name =
      ((value.field? name).filter fun inner => !inner.isNull).map withoutNulls := by
  cases closed : value.entries? with
  | none =>
      rw [withoutNulls_leaf closed]
      simp [field?, closed]
  | some entries =>
      obtain rfl := eq_object closed
      have named : (object entries).field? name = Entries.value? name entries := rfl
      rw [named, ← value?_spoken distinct.names_nodup, ← Entries.value?_map,
        ← withoutNullEntries_eq, withoutNulls]
      rfl

theorem left_withoutNulls {value : Document} (distinct : value.Distinct)
    (speaks : value.isNull = false) (path : List String) :
    Left (value.at? path) (value.withoutNulls.at? path) := by
  induction path generalizing value with
  | nil =>
      cases closed : value.entries? with
      | none =>
          rw [withoutNulls_leaf closed]
          exact left_leaf closed speaks
      | some entries =>
          obtain rfl := eq_object closed
          refine ⟨withoutNullEntries entries, by rw [withoutNulls]; rfl, ?_⟩
          rw [withoutNullEntries_eq]
          simp [Entries.names]
  | cons name rest ih =>
      rw [at?_cons, at?_cons, field?_withoutNulls distinct]
      cases given : value.field? name with
      | none => rfl
      | some inner =>
          cases silent : inner.isNull with
          | true =>
              obtain rfl := eq_null silent
              cases rest <;> rfl
          | false =>
              have kept : (some inner).filter (fun inner => !inner.isNull) = some inner := by
                simp [Option.filter, silent]
              rw [kept]
              exact ih (distinct.field given) silent

theorem at?_behind {document : Document} {before : List String} {entries : Entries Document}
    (here : document.at? before = some (.object entries)) (name : String) (after : List String) :
    document.at? (before ++ name :: after) = (Entries.value? name entries).bind (at? after) := by
  rw [at?_append, here]
  rfl

theorem merged_of_objects {base changes : Document} (distinct : changes.Distinct)
    {before : List String} (name : String) (after : List String)
    (both : BothObjects base changes before) :
    Merged base changes (merge base changes) (before ++ name :: after) (before.length + 1) := by
  obtain ⟨old, new, there, here⟩ := both
  have unique : (Entries.names new).Nodup := (distinct.at here).names_nodup
  have merged := at?_merge_objects distinct there here
  have cut : (before ++ name :: after).take (before.length + 1) = before ++ [name] :=
    List.take_length_add_append 1
  have single {document : Document} {entries : Entries Document}
      (known : document.at? before = some (.object entries)) :
      document.at? (before ++ [name]) = Entries.value? name entries := by
    rw [at?_behind known]
    cases Entries.value? name entries <;> rfl
  refine ⟨?_, ?_, ?_⟩
  · rw [cut, single here]
    intro silent
    rw [at?_behind merged, at?_behind there, value?_mergeEntries_of_silent unique silent]
  · rw [cut, single here, single merged]
    intro leaf given closed speaks
    have value : Entries.value? name (mergeEntries old new) = _ :=
      value?_mergeEntries_of_spoken unique given speaks
    rw [settled_leaf _ closed speaks] at value
    refine ⟨value, fun longer => ?_⟩
    have below : after ≠ [] := by
      intro same
      subst same
      simp at longer
    rw [at?_behind merged, value]
    exact at?_leaf closed below
  · rw [cut, single here, single there]
    intro entries given none
    have value : Entries.value? name (mergeEntries old new) = _ :=
      value?_mergeEntries_of_spoken unique given rfl
    rw [settled_onto_leaf entries none] at value
    rw [at?_behind merged, at?_behind here, value, given]
    exact left_withoutNulls ((distinct.at here).field given) rfl after

/--
What merging two objects gives at every path: objects where both sides hold objects, with the names
of the base and behind them those that only the changes give, and up to the first position at which
they part what the changes decide there.
-/
theorem at?_merge (base changes : Entries Document) (distinct : (object changes).Distinct) :
    (∀ path j, 0 < j → j ≤ path.length →
      (∀ i < j, BothObjects (.object base) (.object changes) (path.take i)) →
      Merged (.object base) (.object changes) (merge (.object base) (.object changes)) path j) ∧
    (∀ path, (∀ i ≤ path.length, BothObjects (.object base) (.object changes) (path.take i)) →
      ∃ entries, (merge (.object base) (.object changes)).at? path = some (.object entries)) ∧
    (∀ path old new, (object base).at? path = some (.object old) →
      (object changes).at? path = some (.object new) →
      ∃ entries, (merge (.object base) (.object changes)).at? path = some (.object entries) ∧
        Entries.names entries = Entries.names old ++
          Entries.names ((spoken new).filter fun entry => entry.1 ∉ Entries.names old)) := by
  refine ⟨?_, ?_, ?_⟩
  · intro path j position inside earlier
    obtain ⟨i, rfl⟩ := Nat.exists_eq_succ_of_ne_zero (Nat.ne_of_gt position)
    have both := earlier i (Nat.lt_succ_self i)
    have cut : path = path.take i ++ path[i] :: path.drop (i + 1) := by
      rw [← List.drop_eq_getElem_cons inside, List.take_append_drop]
    have length : (path.take i).length = i := List.length_take_of_le (Nat.le_of_succ_le inside)
    have merged := merged_of_objects distinct path[i] (path.drop (i + 1)) both
    rw [← cut, length] at merged
    exact merged
  · intro path all
    have both := all path.length (Nat.le_refl _)
    rw [List.take_length] at both
    obtain ⟨old, new, there, here⟩ := both
    exact ⟨_, at?_merge_objects distinct there here⟩
  · intro path old new there here
    exact ⟨_, at?_merge_objects distinct there here,
      names_mergeEntries (distinct.at here).names_nodup⟩

/-- Two levels down: one entry of the changes is silent, the other takes the place of a leaf. -/
theorem at?_merge_two_levels :
    (object [("a", .object [("x", .null), ("y", .object [("z", .null)])])]).Distinct ∧
      Merged (.object [("a", .object [("x", .text "1"), ("y", .text "2")])])
        (.object [("a", .object [("x", .null), ("y", .object [("z", .null)])])])
        (.object [("a", .object [("x", .text "1"), ("y", .object [])])]) ["a", "y"] 2 := by
  have distinct :
      (object [("a", .object [("x", .null), ("y", .object [("z", .null)])])]).Distinct := by
    simp [Distinct, DistinctEntries, Entries.names]
  refine ⟨distinct, ?_⟩
  have merged := (at?_merge [("a", .object [("x", .text "1"), ("y", .text "2")])] _ distinct).1
    ["a", "y"] 2 (by decide) (by decide) ?_
  · simpa [merge, mergeEntries, Entries.value?, Entries.put, withoutNulls, withoutNullEntries]
      using merged
  · intro i before
    have steps : i = 0 ∨ i = 1 := by omega
    rcases steps with rfl | rfl
    · exact ⟨_, _, rfl, rfl⟩
    · exact ⟨_, _, rfl, rfl⟩

end DesignTokens.Document
