import DesignTokens.Proofs.Document.Obstruction
import DesignTokens.Proofs.Theme.Folding
import DesignTokens.Proofs.Theme.Resolved

/-!
Fields whose paths overlap. A field under the path of one written before it cannot be written; a
field above the path of one written before it takes the place of that one.
-/

namespace DesignTokens.Theme

open Token

variable {pairs before rest : List (String × Scalar)} {entries after : Entries Document}
  {path : List String} {pair : String × Scalar} {tree : Tree} {fields : List Field}
  {resolved : Entries Scalar} {field name : String} {scalar : Scalar}

def Apart (path other : List String) : Prop := ¬ path <+: other ∧ ¬ other <+: path

/-- The path of a field leads on from that of another one. -/
def Nested (field other : String) : Prop :=
  Document.Below (Text.split '.' field) (Text.split '.' other)

theorem toDocument_entries? (scalar : Scalar) : scalar.toDocument.entries? = none := by
  cases scalar with
  | number x =>
      rw [Scalar.toDocument, Document.ofBinary64]
      split <;> rfl
  | text s => rfl

theorem exists_of_fold_cons (folded : fold (pair :: pairs) entries = .ok after) :
    ∃ next, Document.insert? pair.2.toDocument (Text.split '.' pair.1) entries = some next ∧
      fold pairs next = .ok after := by
  rw [fold] at folded
  cases inserted : Document.insert? pair.2.toDocument (Text.split '.' pair.1) entries with
  | none => simp [inserted] at folded
  | some next => exact ⟨next, rfl, by simpa only [inserted] using folded⟩

theorem fold_append (before rest : List (String × Scalar)) (entries : Entries Document) :
    fold (before ++ rest) entries = (fold before entries).bind (fold rest) := by
  induction before generalizing entries with
  | nil => rfl
  | cons pair more ih =>
      rw [List.cons_append, fold, fold]
      cases Document.insert? pair.2.toDocument (Text.split '.' pair.1) entries with
      | none => rfl
      | some next => exact ih next

theorem at?_fold_of_apart (folded : fold pairs entries = .ok after)
    (apart : ∀ pair ∈ pairs, Apart (Text.split '.' pair.1) path) :
    (Document.object after).at? path = (Document.object entries).at? path := by
  induction pairs generalizing entries with
  | nil =>
      cases folded
      rfl
  | cons pair rest ih =>
      obtain ⟨next, inserted, behind⟩ := exists_of_fold_cons folded
      obtain ⟨here, others⟩ := List.forall_mem_cons.mp apart
      rw [ih behind others]
      exact Document.at?_insert?_of_elsewhere inserted here.1 here.2

theorem at?_fold_of_apart_behind (folded : fold (before ++ (field, scalar) :: rest) entries = .ok after)
    (apart : ∀ pair ∈ rest, Apart (Text.split '.' pair.1) (Text.split '.' field)) :
    (Document.object after).at? (Text.split '.' field) = some scalar.toDocument := by
  cases first : fold before entries with
  | error e =>
      rw [fold_append, first] at folded
      cases folded
  | ok middle =>
      have second : fold ((field, scalar) :: rest) middle = .ok after := by
        rw [fold_append, first] at folded
        exact folded
      obtain ⟨next, inserted, behind⟩ := exists_of_fold_cons second
      rw [at?_fold_of_apart behind apart]
      exact Document.at?_insert? inserted (Text.split_ne_nil '.' field)

theorem at?_fold (folded : fold pairs entries = .ok after)
    (apart : pairs.Pairwise fun pair other =>
      Apart (Text.split '.' other.1) (Text.split '.' pair.1)) :
    ∀ pair ∈ pairs,
      (Document.object after).at? (Text.split '.' pair.1) = some pair.2.toDocument := by
  intro pair listed
  obtain ⟨before, rest, rfl⟩ := List.append_of_mem listed
  have behind := (List.pairwise_append.mp apart).2.1
  exact at?_fold_of_apart_behind folded (List.pairwise_cons.mp behind).1

theorem obstructed_fold (folded : fold pairs entries = .ok after) :
    (Document.object after).Obstructed path ↔ (Document.object entries).Obstructed path ∨
      ∃ other ∈ Entries.names pairs, Document.Below path (Text.split '.' other) := by
  induction pairs generalizing entries with
  | nil =>
      cases folded
      simp [Entries.names]
  | cons pair rest ih =>
      obtain ⟨next, inserted, behind⟩ := exists_of_fold_cons folded
      rw [ih behind, Document.obstructed_insert? inserted (toDocument_entries? pair.2)
        (Text.split_ne_nil '.' pair.1), or_assoc]
      simp [Entries.names]

theorem fold_of_obstructed (obstructed : (Document.object entries).Obstructed (Text.split '.' field)) :
    fold ((field, scalar) :: rest) entries = .error (.shape (.nestedUnderLeaf field)) := by
  rw [fold, Document.insert?_eq_none.mpr obstructed]

theorem exists_fold
    (free : ∀ field ∈ Entries.names pairs,
      ¬ (Document.object entries).Obstructed (Text.split '.' field))
    (clear : (Entries.names pairs).Pairwise fun first later => ¬ Nested later first) :
    ∃ after, fold pairs entries = .ok after := by
  induction pairs generalizing entries with
  | nil => exact ⟨entries, rfl⟩
  | cons pair rest ih =>
      obtain ⟨here, others⟩ := List.forall_mem_cons.mp free
      obtain ⟨above, clear'⟩ := List.pairwise_cons.mp clear
      obtain ⟨next, inserted⟩ := Option.ne_none_iff_exists'.mp
        (mt Document.insert?_eq_none.mp here : Document.insert? pair.2.toDocument _ entries ≠ none)
      have free' : ∀ field ∈ Entries.names rest,
          ¬ (Document.object next).Obstructed (Text.split '.' field) := by
        intro field later
        rw [Document.obstructed_insert? inserted (toDocument_entries? pair.2)
          (Text.split_ne_nil '.' pair.1)]
        rintro (blocked | below)
        · exact others field later blocked
        · exact above field later below
      obtain ⟨after, folded⟩ := ih free' clear'
      exact ⟨after, by simp only [fold, inserted, folded]⟩

theorem not_obstructed_nothing (path : List String) : ¬ (Document.object []).Obstructed path := by
  cases path with
  | nil => exact Document.not_obstructed_nil _
  | cons name rest =>
      rw [Document.obstructed_object]
      rintro ⟨_, ⟨⟩, _⟩

theorem split_name : Text.split '.' "name" = ["name"] := by cbv

theorem fold_name (name : String) (resolved : Entries Scalar) :
    fold resolved [("name", .text name)] = fold (("name", .text name) :: resolved) [] := by
  rw [fold, split_name]
  rfl

theorem not_nested_name (other : String) : ¬ Nested "name" other := by
  rw [Nested, split_name]
  rintro ⟨starts, proper⟩
  rcases List.prefix_cons_iff.mp starts with empty | ⟨rest, same, within⟩
  · exact Text.split_ne_nil '.' other empty
  · rw [List.prefix_nil.mp within] at same
    exact proper same

theorem fold_of_nested (clear : (Entries.names before).Pairwise fun first later => ¬ Nested later first)
    (nested : ∃ other ∈ Entries.names before, Nested field other) :
    fold (before ++ (field, scalar) :: rest) [] = .error (.shape (.nestedUnderLeaf field)) := by
  obtain ⟨middle, folded⟩ := exists_fold (fun field _ => not_obstructed_nothing _) clear
  rw [fold_append, folded]
  exact fold_of_obstructed ((obstructed_fold folded).mpr (.inr nested))

/-- A value is lost exactly if some field stands above it, and then nothing is found in its place. -/
theorem at?_of_fold (folded : fold pairs [] = .ok after) (distinct : (Entries.names pairs).Nodup)
    (clear : (Entries.names pairs).Pairwise fun first later => ¬ Nested later first)
    (listed : (field, scalar) ∈ pairs) :
    ((∀ other ∈ Entries.names pairs, ¬ Nested field other) →
      (Document.object after).at? (Text.split '.' field) = some scalar.toDocument) ∧
    ((∃ other ∈ Entries.names pairs, Nested field other) →
      (Document.object after).at? (Text.split '.' field) = none) := by
  constructor
  · intro single
    obtain ⟨before, rest, rfl⟩ := List.append_of_mem listed
    rw [Entries.names, List.map_append, List.map_cons] at distinct clear
    have fresh := (List.nodup_cons.mp (List.nodup_append.mp distinct).2.1).1
    have above := (List.pairwise_cons.mp (List.pairwise_append.mp clear).2.1).1
    apply at?_fold_of_apart_behind folded
    intro pair later
    have named : pair.1 ∈ rest.map Prod.fst := List.mem_map_of_mem later
    have different : Text.split '.' field ≠ Text.split '.' pair.1 :=
      split_ne fun same => fresh (same ▸ named)
    have present : pair.1 ∈ Entries.names (before ++ (field, scalar) :: rest) := by
      simp [Entries.names, named]
    exact ⟨fun starts => single _ present ⟨starts, different.symm⟩,
      fun starts => above _ named ⟨starts, different⟩⟩
  · intro nested
    exact ((obstructed_fold folded).mpr (.inr nested)).at?_eq_none

/--
What becomes of resolved fields. As long as no field is nested under one resolved before it, they go
into a document, under the name; of these, each field is found in it unless another one stands above
it, and then nothing is. Otherwise the first field that is nested under an earlier one is reported.
-/
theorem assembleDocument_spec (tree : Tree) (fields : List Field) (name : String)
    (distinct : (fields.map Field.name).Nodup) (unnamed : "name" ∉ fields.map Field.name) :
    (∀ e, resolveFields tree fields = .error e → assembleDocument tree fields name = .error e) ∧
    ∀ resolved, resolveFields tree fields = .ok resolved →
      resolved.names.Perm (fields.map Field.name) ∧
      (∀ before field after, "name" :: resolved.names = before ++ field :: after →
        (before.Pairwise fun first later => ¬ Nested later first) →
        (∃ other ∈ before, Nested field other) →
        assembleDocument tree fields name = .error (.shape (.nestedUnderLeaf field))) ∧
      ((("name" :: resolved.names).Pairwise fun first later => ¬ Nested later first) →
        ∃ document, assembleDocument tree fields name = .ok document ∧
          document.at? ["name"] = some (.text name) ∧
          ∀ field scalar, resolved.value? field = some scalar →
            ((∀ other ∈ resolved.names, ¬ Nested field other) →
              document.at? (Text.split '.' field) = some scalar.toDocument) ∧
            ((∃ other ∈ resolved.names, Nested field other) →
              document.at? (Text.split '.' field) = none)) := by
  constructor
  · intro e failed
    simp only [assembleDocument, failed]
  · intro resolved found
    have names := names_resolveFields distinct found
    have whole : (Entries.names (("name", Scalar.text name) :: resolved)).Nodup :=
      List.nodup_cons.mpr ⟨fun listed => unnamed (names.mem_iff.mp listed), names.nodup_iff.mpr distinct⟩
    refine ⟨names, ?_, ?_⟩
    · intro before field after parts clear nested
      have parts' : (("name", Scalar.text name) :: resolved).map Prod.fst = before ++ field :: after :=
        parts
      obtain ⟨first, later, pairs, rfl, last⟩ := List.map_eq_append_iff.mp parts'
      obtain ⟨⟨key, scalar⟩, rest, rfl, rfl, rfl⟩ := List.map_eq_cons_iff.mp last
      simp only [assembleDocument, found, fold_name, pairs, fold_of_nested clear nested]
    · intro clear
      have goes : ∃ after, fold (("name", .text name) :: resolved) [] = .ok after :=
        exists_fold (fun field _ => not_obstructed_nothing _) clear
      obtain ⟨after, folded⟩ := goes
      refine ⟨.object after, assembleDocument_of_fold found (fold_name name resolved ▸ folded), ?_, ?_⟩
      · rw [← split_name]
        exact (at?_of_fold folded whole clear List.mem_cons_self).1 fun other _ => not_nested_name other
      · intro field scalar given
        have listed : (field, scalar) ∈ ("name", Scalar.text name) :: resolved :=
          List.mem_cons_of_mem _ (Entries.mem_of_value? given)
        have kept := at?_of_fold folded whole clear listed
        have here : ¬ Nested field "name" :=
          (List.pairwise_cons.mp clear).1 field (Entries.mem_names_of_value? given)
        constructor
        · intro single
          exact kept.1 (List.forall_mem_cons.mpr ⟨here, single⟩)
        · rintro ⟨other, above, nested⟩
          exact kept.2 ⟨other, List.mem_cons_of_mem _ above, nested⟩

def inkAlone : Tree := ⟨[("Ink", .object [(valueKey, .text "#000000")])]⟩

def colorField : Field := .text "semantic.color" "Ink"

def primaryField : Field := .text "semantic.color.primary" "Ink"

theorem split_colorField : Text.split '.' colorField.name = ["semantic", "color"] := by cbv

theorem split_primaryField :
    Text.split '.' primaryField.name = ["semantic", "color", "primary"] := by cbv

theorem overlapping_assembled :
    (∃ document, assembleDocument inkAlone [primaryField, colorField] "Day" = .ok document ∧
      document.at? ["name"] = some (.text "Day") ∧
      document.at? (Text.split '.' primaryField.name) = none) ∧
    assembleDocument inkAlone [colorField, primaryField] "Day" =
      .error (.shape (.nestedUnderLeaf primaryField.name)) := by
  have nested : Nested primaryField.name colorField.name := by
    rw [Nested, split_primaryField, split_colorField]
    exact ⟨⟨["primary"], rfl⟩, by decide⟩
  have upward : ¬ Nested colorField.name primaryField.name := by
    rw [Nested, split_primaryField, split_colorField]
    exact fun back => absurd back.1 (by decide)
  have free : ¬ Nested colorField.name "name" ∧ ¬ Nested primaryField.name "name" := by
    rw [Nested, Nested, split_primaryField, split_colorField, split_name]
    exact ⟨fun below => absurd below.1 (by decide), fun below => absurd below.1 (by decide)⟩
  constructor
  · obtain ⟨-, resolves⟩ := assembleDocument_spec inkAlone [primaryField, colorField] "Day"
      (by decide) (by decide)
    have found : resolveFields inkAlone [primaryField, colorField] =
        .ok [(primaryField.name, .text "#000000"), (colorField.name, .text "#000000")] := by cbv
    obtain ⟨-, -, folds⟩ := resolves _ found
    have clear : ["name", primaryField.name, colorField.name].Pairwise
        fun first later => ¬ Nested later first := by
      simp [upward, free]
    obtain ⟨document, assembled, named, values⟩ := folds clear
    have lost := (values primaryField.name (.text "#000000") (by decide)).2
      ⟨colorField.name, by decide, nested⟩
    exact ⟨document, assembled, named, lost⟩
  · obtain ⟨-, resolves⟩ := assembleDocument_spec inkAlone [colorField, primaryField] "Day"
      (by decide) (by decide)
    have found : resolveFields inkAlone [colorField, primaryField] =
        .ok [(colorField.name, .text "#000000"), (primaryField.name, .text "#000000")] := by cbv
    obtain ⟨-, reports, -⟩ := resolves _ found
    refine reports ["name", colorField.name] primaryField.name [] rfl ?_ ?_
    · simp [free]
    · exact ⟨colorField.name, by decide, nested⟩

/-- Written before the field above it, a nested field is lost without a word. -/
theorem primaryField_lost :
    ([primaryField, colorField].map Field.name).Nodup ∧
    "name" ∉ [primaryField, colorField].map Field.name ∧
    resolveFields inkAlone [primaryField, colorField] =
      .ok [("semantic.color.primary", .text "#000000"), ("semantic.color", .text "#000000")] ∧
    assembleDocument inkAlone [primaryField, colorField] "Day" =
      .ok (.object [("name", .text "Day"), ("semantic", .object [("color", .text "#000000")])]) ∧
    Document.at? ["semantic", "color", "primary"] (.object [("name", .text "Day"),
      ("semantic", .object [("color", .text "#000000")])]) = none := by
  refine ⟨by decide, by decide, ?_, ?_, ?_⟩
  · cbv
  · cbv
  · rfl

end DesignTokens.Theme
