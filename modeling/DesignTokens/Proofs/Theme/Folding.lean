import DesignTokens.Proofs.Document.Insertion
import DesignTokens.Proofs.Theme.Leaves
import DesignTokens.Theme.Assembly

/-!
Folding fields into a document. As long as every field is a leaf of one schema the folding goes
through, in whatever order the fields come, and each of them keeps its value to the end.
-/

namespace DesignTokens.Theme

open Token

namespace Schema

variable {schema whole : Schema} {title name : String} {fields : List (String × Schema)}
  {entries : Entries Document} {value : Document} {path other : List String} {kind kind' : Kind}

theorem leaf_not_prefix (leaf : whole.at? path = some (ofKind kind))
    (leaf' : whole.at? other = some (ofKind kind')) (different : path ≠ other) :
    ¬ path <+: other := by
  induction path generalizing whole other with
  | nil =>
      cases leaf
      cases other with
      | nil => exact absurd rfl different
      | cons key more => cases kind <;> cases leaf'
  | cons name rest ih =>
      intro starts
      rcases starts with ⟨more, rfl⟩
      cases whole with
      | text => cases leaf
      | number => cases leaf
      | record title fields =>
          rcases Option.bind_eq_some_iff.mp leaf with ⟨schema, here, below⟩
          rcases Option.bind_eq_some_iff.mp leaf' with ⟨schema', here', below'⟩
          rw [here] at here'
          cases here'
          have shorter : rest ≠ rest ++ more := fun same => different (congrArg (name :: ·) same)
          exact ih below below' shorter ⟨more, rfl⟩

theorem Admits.put (admits : (Schema.record title fields).Admits (.object entries))
    (field : Entries.value? name fields = some schema) (fits : schema.Admits value) :
    (Schema.record title fields).Admits (.object (entries.put name value)) := by
  cases admits with
  | record distinct declared admitted =>
      refine .record ?_ ?_ ?_
      · rw [Entries.names_put]
        split
        · exact distinct
        · rename_i fresh
          rw [List.nodup_append]
          refine ⟨distinct, by simp, ?_⟩
          intro one here two last same
          subst same
          exact fresh (List.mem_singleton.mp last ▸ here)
      · intro key found present
        by_cases same : key = name
        · subst same
          exact Entries.mem_names_of_value? field
        · rw [Entries.value?_put_of_ne same] at present
          exact declared key found present
      · intro key found expected present known
        by_cases same : key = name
        · subst same
          rw [Entries.value?_put_self] at present
          rw [field] at known
          cases present
          cases known
          exact fits
        · rw [Entries.value?_put_of_ne same] at present
          exact admitted key found expected present known

theorem admits_nothing (title : String) (fields : List (String × Schema)) :
    (record title fields).Admits (.object []) :=
  .record (by simp [Entries.names]) (fun _ _ present => nomatch present)
    fun _ _ _ present => nomatch present

theorem Admits.insert (admits : whole.Admits (.object entries))
    (leaf : whole.at? path = some (ofKind kind)) (fits : (ofKind kind).Admits value) :
    ∃ after, Document.insert? value path entries = some after ∧ whole.Admits (.object after) := by
  induction path generalizing whole entries with
  | nil =>
      cases leaf
      cases kind <;> cases admits
  | cons name rest ih =>
      cases whole with
      | text => cases leaf
      | number => cases leaf
      | record title fields =>
          rcases Option.bind_eq_some_iff.mp leaf with ⟨schema, field, below⟩
          cases rest with
          | nil =>
              cases below
              exact ⟨_, Document.insert?_singleton .., admits.put field fits⟩
          | cons next rest =>
              have opened : ∃ inner, Document.Opens entries name inner ∧
                  schema.Admits (.object inner) := by
                cases found : entries.value? name with
                | none =>
                    cases schema with
                    | text => cases below
                    | number => cases below
                    | record title' fields' => exact ⟨[], .inl ⟨found, rfl⟩, admits_nothing ..⟩
                | some document =>
                    cases admits with
                    | record distinct declared admitted =>
                        cases admitted _ _ _ found field with
                        | text s => cases below
                        | number n => cases below
                        | @record _ _ inner distinct' declared' admitted' =>
                            exact ⟨inner, .inr found, .record distinct' declared' admitted'⟩
              rcases opened with ⟨inner, opens, admits'⟩
              rcases ih admits' below with ⟨after, reached, within⟩
              refine ⟨entries.put name (.object after), ?_, admits.put field within⟩
              rw [Document.insert?_of_opens opens, reached]
              rfl

end Schema

/-- A number that has a written form; every text has one. -/
def Written : Scalar → Prop
  | .number x => x.isFinite = true
  | .text _ => True

theorem admits_toDocument {scalar : Scalar} (written : Written scalar) :
    (Schema.ofKind scalar.kind).Admits scalar.toDocument := by
  cases scalar with
  | number x =>
      have finite : x.isFinite = true := written
      simpa [Scalar.kind, Scalar.toDocument, Document.ofBinary64, finite] using .number _
  | text s => exact .text s

def Fills (schema : Schema) (pair : String × Scalar) : Prop :=
  schema.at? (Text.split '.' pair.1) = some (.ofKind pair.2.kind) ∧ Written pair.2

theorem split_ne {name other : String} (different : name ≠ other) :
    Text.split '.' name ≠ Text.split '.' other := by
  intro same
  apply different
  rw [← Text.join_split '.' name, same, Text.join_split]

theorem fold_of_leaves {schema : Schema} {pairs : List (String × Scalar)}
    {entries : Entries Document} (admits : schema.Admits (.object entries))
    (fills : ∀ pair ∈ pairs, Fills schema pair) (distinct : (Entries.names pairs).Nodup) :
    ∃ after, fold pairs entries = .ok after ∧ schema.Admits (.object after) ∧
      (∀ pair ∈ pairs, (Document.object after).at? (Text.split '.' pair.1) = some pair.2.toDocument) ∧
      ∀ path kind, schema.at? path = some (.ofKind kind) →
        (∀ pair ∈ pairs, path ≠ Text.split '.' pair.1) →
        (Document.object after).at? path = (Document.object entries).at? path := by
  induction pairs generalizing entries with
  | nil => exact ⟨entries, rfl, admits, fun _ none => (nomatch none), fun _ _ _ _ => rfl⟩
  | cons head rest ih =>
      rcases head with ⟨name, scalar⟩
      rcases List.forall_mem_cons.mp fills with ⟨⟨leaf, written⟩, fills'⟩
      rcases List.nodup_cons.mp distinct with ⟨fresh, distinct'⟩
      rcases admits.insert leaf (admits_toDocument written) with ⟨next, inserted, admits'⟩
      rcases ih admits' fills' distinct' with ⟨after, folded, whole, values, kept⟩
      have others : ∀ pair ∈ rest, Text.split '.' name ≠ Text.split '.' pair.1 := by
        intro pair later
        apply split_ne
        intro same
        subst same
        exact fresh (List.mem_map.mpr ⟨pair, later, rfl⟩)
      refine ⟨after, by simp only [fold, inserted, folded], whole, ?_, ?_⟩
      · apply List.forall_mem_cons.mpr ⟨?_, values⟩
        rw [kept _ _ leaf others]
        exact Document.at?_insert? inserted (Text.split_ne_nil '.' name)
      · intro path kind leaf' untouched
        rcases List.forall_mem_cons.mp untouched with ⟨untouched', later⟩
        rw [kept path kind leaf' later]
        apply Document.at?_insert?_of_elsewhere inserted
        · exact Schema.leaf_not_prefix leaf leaf' (Ne.symm untouched')
        · exact Schema.leaf_not_prefix leaf' leaf untouched'

theorem assembleDocument_of_fold {tree : Tree} {fields : List Field} {name : String}
    {resolved : Entries Scalar} {after : Entries Document}
    (found : resolveFields tree fields = .ok resolved)
    (folded : fold resolved [("name", .text name)] = .ok after) :
    assembleDocument tree fields name = .ok (.object after) := by
  simp only [assembleDocument, found, folded]

end DesignTokens.Theme
