import DesignTokens.Proofs.Document.Setting

/-!
What an insertion changes: the value at its own path, and nothing at a path that leads elsewhere. A
path leads elsewhere when neither it nor the path of the insertion is the start of the other.
-/

namespace DesignTokens.Document

variable {value : Document} {name next : String} {path rest other : List String}
  {entries inner after : Entries Document}

theorem insert?_singleton (value : Document) (name : String) (entries : Entries Document) :
    insert? value [name] entries = some (entries.put name value) := rfl

def Opens (entries : Entries Document) (name : String) (inner : Entries Document) : Prop :=
  (entries.value? name = none ∧ inner = []) ∨ entries.value? name = some (.object inner)

theorem insert?_of_opens (opens : Opens entries name inner) (value : Document) (next : String)
    (rest : List String) :
    insert? value (name :: next :: rest) entries =
      (insert? value (next :: rest) inner).map fun inner => entries.put name (.object inner) := by
  rcases opens with ⟨absent, rfl⟩ | present
  · rw [insert?, absent, Option.map_eq_bind]
    rfl
  · rw [insert?, present, Option.map_eq_bind]
    rfl

theorem exists_opens (done : insert? value (name :: next :: rest) entries = some after) :
    ∃ inner inner', Opens entries name inner ∧ insert? value (next :: rest) inner = some inner' ∧
      after = entries.put name (.object inner') := by
  have opened : ∃ inner, Opens entries name inner := by
    cases found : entries.value? name with
    | none => exact ⟨[], .inl ⟨found, rfl⟩⟩
    | some document =>
        cases document with
        | object inner => exact ⟨inner, .inr found⟩
        | _ => simp [insert?, found] at done
  obtain ⟨inner, opens⟩ := opened
  rw [insert?_of_opens opens] at done
  obtain ⟨inner', below, same⟩ := Option.map_eq_some_iff.mp done
  exact ⟨inner, inner', opens, below, same.symm⟩

theorem Opens.entriesOrNone (opens : Opens entries name inner) :
    entriesOrNone (entries.value? name) = inner := by
  rcases opens with ⟨absent, rfl⟩ | present
  · rw [absent]
    rfl
  · rw [present]
    rfl

/-- An insertion that is done sets the value. It only fails where a setting would remove a leaf. -/
theorem set_of_insert? (done : insert? value path entries = some after) :
    set value path entries = after := by
  induction path generalizing entries after with
  | nil => exact Option.some.inj done
  | cons name rest ih =>
      cases rest with
      | nil => exact Option.some.inj done
      | cons next rest =>
          rcases exists_opens done with ⟨inner, inner', opens, below, rfl⟩
          rw [set, opens.entriesOrNone, ih below]

theorem at?_insert? (done : insert? value path entries = some after) (proper : path ≠ []) :
    (object after).at? path = some value := by
  rw [← set_of_insert? done]
  exact at?_set proper value entries

theorem at?_insert?_of_elsewhere (done : insert? value path entries = some after)
    (before : ¬ path <+: other) (behind : ¬ other <+: path) :
    (object after).at? other = (object entries).at? other := by
  rw [← set_of_insert? done]
  exact at?_set_of_parted (parted_of_not_start before behind) value entries

end DesignTokens.Document
