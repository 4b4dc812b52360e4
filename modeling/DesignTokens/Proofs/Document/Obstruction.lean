import DesignTokens.Proofs.Document.Insertion

/-!
What stands in the way of an insertion: a leaf above the place of its path. An inserted leaf is in the
way of the paths that lead on from its own, and of no others.
-/

namespace DesignTokens.Document

variable {document value leaf : Document} {name : String} {path other rest : List String}
  {entries after : Entries Document}

def Below (path other : List String) : Prop := other <+: path ∧ other ≠ path

theorem Below.of_prefix {last : List String} (below : Below path other) (starts : last <+: other) :
    Below path last := by
  refine ⟨starts.trans below.1, ?_⟩
  rintro rfl
  exact below.2 (starts.eq_of_length_le below.1.length_le).symm

/-- A value that is no object stands above the place of the path. -/
def Obstructed (document : Document) (path : List String) : Prop :=
  ∃ start leaf, document.at? start = some leaf ∧ leaf.entries? = none ∧ Below path start

theorem not_obstructed_nil (document : Document) : ¬ document.Obstructed [] := by
  rintro ⟨start, leaf, -, -, starts, proper⟩
  exact proper (List.prefix_nil.mp starts)

theorem obstructed_leaf (single : leaf.entries? = none) :
    leaf.Obstructed path ↔ path ≠ [] := by
  constructor
  · rintro obstructed rfl
    exact not_obstructed_nil leaf obstructed
  · intro proper
    exact ⟨[], leaf, rfl, single, List.nil_prefix, proper.symm⟩

theorem obstructed_object :
    (object entries).Obstructed (name :: rest) ↔
      ∃ value, entries.value? name = some value ∧ value.Obstructed rest := by
  constructor
  · rintro ⟨start, leaf, reached, single, starts, proper⟩
    cases start with
    | nil =>
        cases reached
        cases single
    | cons key more =>
        obtain ⟨rfl, starts'⟩ := List.cons_prefix_cons.mp starts
        obtain ⟨value, found, reached'⟩ := Option.bind_eq_some_iff.mp reached
        have proper' : more ≠ rest := fun same => proper (congrArg (key :: ·) same)
        exact ⟨value, found, more, leaf, reached', single, starts', proper'⟩
  · rintro ⟨value, found, start, leaf, reached, single, starts, proper⟩
    refine ⟨name :: start, leaf, ?_, single, List.cons_prefix_cons.mpr ⟨rfl, starts⟩, ?_⟩
    · rw [at?_object, found, Option.bind_some, reached]
    · exact fun same => proper (List.tail_eq_of_cons_eq same)

theorem Obstructed.at?_eq_none (obstructed : document.Obstructed path) :
    document.at? path = none := by
  obtain ⟨start, leaf, reached, single, ⟨more, rfl⟩, proper⟩ := obstructed
  rw [at?_append, reached, Option.bind_some]
  cases more with
  | nil => exact absurd (List.append_nil start).symm proper
  | cons name rest => rw [at?_cons, field?, single, Option.bind_none, Option.bind_none]

theorem insert?_eq_none : insert? value path entries = none ↔ (object entries).Obstructed path := by
  induction path generalizing entries with
  | nil => simp [insert?, not_obstructed_nil]
  | cons name rest ih =>
      rw [obstructed_object]
      cases rest with
      | nil => simp [insert?, not_obstructed_nil]
      | cons next rest =>
          cases found : entries.value? name with
          | none =>
              have free : ¬ (object []).Obstructed (next :: rest) := by
                rw [obstructed_object]
                rintro ⟨_, ⟨⟩, _⟩
              rw [insert?_of_opens (.inl ⟨found, rfl⟩), Option.map_eq_none_iff, ih]
              simp [free]
          | some there =>
              cases opened : there.entries? with
              | some inner =>
                  cases eq_object opened
                  rw [insert?_of_opens (.inr found), Option.map_eq_none_iff, ih]
                  simp
              | none =>
                  have blocked : there.Obstructed (next :: rest) :=
                    (obstructed_leaf opened).mpr (List.cons_ne_nil next rest)
                  have fails : insert? value (name :: next :: rest) entries = none := by
                    cases there with
                    | object inner => cases opened
                    | _ => simp [insert?, found]
                  simp [fails, blocked]

theorem obstructed_insert? (done : insert? value path entries = some after)
    (single : value.entries? = none) (proper : path ≠ []) :
    (object after).Obstructed other ↔ (object entries).Obstructed other ∨ Below other path := by
  have here : (object after).at? path = some value := at?_insert? done proper
  have free : ¬ (object entries).Obstructed path := by
    intro obstructed
    have fails : insert? value path entries = none := insert?_eq_none.mpr obstructed
    rw [done] at fails
    cases fails
  constructor
  · rintro ⟨start, leaf, reached, single', below⟩
    by_cases before : path <+: start
    · exact .inr (below.of_prefix before)
    · by_cases behind : start <+: path
      · have above : Below path start := ⟨behind, fun same => before (same ▸ List.prefix_rfl)⟩
        have obstructed : (object after).Obstructed path := ⟨start, leaf, reached, single', above⟩
        rw [obstructed.at?_eq_none] at here
        cases here
      · rw [at?_insert?_of_elsewhere done before behind] at reached
        exact .inl ⟨start, leaf, reached, single', below⟩
  · rintro (⟨start, leaf, reached, single', below⟩ | below)
    · by_cases before : path <+: start
      · exact ⟨path, value, here, single, below.of_prefix before⟩
      · by_cases behind : start <+: path
        · have above : Below path start := ⟨behind, fun same => before (same ▸ List.prefix_rfl)⟩
          exact absurd ⟨start, leaf, reached, single', above⟩ free
        · rw [← at?_insert?_of_elsewhere done before behind] at reached
          exact ⟨start, leaf, reached, single', below⟩
    · exact ⟨path, value, here, single, below⟩

end DesignTokens.Document
