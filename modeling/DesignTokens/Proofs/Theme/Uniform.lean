import DesignTokens.Proofs.Document.Compaction
import DesignTokens.Proofs.Theme.Agreement
import DesignTokens.Proofs.Theme.Checked

/-!
Uniform themes, with one text and one number in all their fields. Whatever the schema does not declare may
stand behind the fields of a uniform theme, and is what the theme then holds beside them.
-/

namespace DesignTokens.Theme

mutual

def Schema.uniform (text : String) (n : Number) : Schema → Document
  | .text => .text text
  | .number => .number n
  | .record _ fields => .object (uniformEntries text n fields)

def uniformEntries (text : String) (n : Number) : List (String × Schema) → Entries Document
  | [] => []
  | (name, schema) :: rest => (name, schema.uniform text n) :: uniformEntries text n rest

end

def Schema.fields : Schema → List (String × Schema)
  | .record _ fields => fields
  | _ => []

def uniformWith (text : String) (n : Number) (extra : Entries Document) : Document :=
  .object (uniformEntries text n schema.fields ++ extra)

/-- The blank theme has empty texts and zeros. -/
def blankWith (extra : Entries Document) : Document := uniformWith "" (.integer 0) extra

/-- What holds of a record when it holds of all its fields holds of every schema. -/
@[elab_as_elim]
theorem Schema.induction {motive : Schema → Prop} (text : motive .text) (number : motive .number)
    (record : ∀ title fields, (∀ field ∈ fields, motive field.2) → motive (.record title fields))
    (schema : Schema) : motive schema :=
  @Schema.rec motive (fun fields => ∀ field ∈ fields, motive field.2) (fun field => motive field.2)
    text number record
    (List.forall_mem_nil _) (fun _ _ first others => List.forall_mem_cons.mpr ⟨first, others⟩)
    (fun _ _ below => below) schema

variable {title text : String} {n : Number} {fields : List (String × Schema)}
  {entries extra : Entries Document}

theorem uniformEntries_eq (text : String) (n : Number) (fields : List (String × Schema)) :
    uniformEntries text n fields = fields.map fun field => (field.1, field.2.uniform text n) := by
  induction fields with
  | nil => rfl
  | cons head rest ih => rw [uniformEntries, ih, List.map_cons]

theorem names_uniformEntries (text : String) (n : Number) (fields : List (String × Schema)) :
    Entries.names (uniformEntries text n fields) = Entries.names fields := by
  simp [uniformEntries_eq, Entries.names]

theorem value?_uniformEntries (name : String) (fields : List (String × Schema)) :
    Entries.value? name (uniformEntries text n fields) =
      (Entries.value? name fields).map (Schema.uniform text n) := by
  rw [uniformEntries_eq]
  exact Entries.value?_map (Schema.uniform text n) name fields

theorem Schema.uniform_fits {schema : Schema} (sound : schema.wellFormed = true) :
    schema.Fits (schema.uniform text n) := by
  induction schema using Schema.induction with
  | text => exact .text text
  | number => exact .number n
  | record title fields ih =>
      obtain ⟨-, distinct, below⟩ := wellFormed_record sound
      rw [uniform]
      refine .record ?_ ?_
      · intro name listed
        rwa [names_uniformEntries]
      · intro name value schema listed known
        rw [uniformEntries_eq] at listed
        obtain ⟨⟨_, other⟩, field, same⟩ := List.mem_map.mp listed
        cases same
        rw [Entries.value?_of_mem distinct field] at known
        cases known
        exact ih _ field (below _ field)

theorem Schema.uniform_distinct {schema : Schema} (sound : schema.wellFormed = true) :
    (schema.uniform text n).Distinct := by
  induction schema using Schema.induction with
  | text => trivial
  | number => trivial
  | record title fields ih =>
      obtain ⟨-, distinct, below⟩ := wellFormed_record sound
      rw [uniform]
      refine ⟨by rwa [names_uniformEntries], ?_⟩
      rw [Document.distinctEntries_iff, uniformEntries_eq]
      exact List.forall_mem_map.mpr fun field listed => ih field listed (below field listed)

theorem Schema.uniform_numbers {holds : Number → Prop} (here : holds n) (schema : Schema) :
    (schema.uniform text n).AllNumbers holds := by
  induction schema using Schema.induction with
  | text => trivial
  | number => exact here
  | record title fields ih =>
      rw [uniform, Document.AllNumbers, Document.allNumbersIn_iff, uniformEntries_eq]
      exact List.forall_mem_map.mpr ih

theorem Schema.uniform_resolved (plain : Token.isAlias text = false) (schema : Schema) :
    (schema.uniform text n).Resolved := by
  induction schema using Schema.induction with
  | text =>
      intro held listed
      rw [List.mem_singleton.mp listed]
      exact plain
  | number => exact List.forall_mem_nil _
  | record title fields ih =>
      rw [uniform, Document.resolved_object, uniformEntries_eq]
      exact List.forall_mem_map.mpr ih

theorem Schema.at?_uniform {path : List String} {schema : Schema}
    (leaf : schema.at? path = some .text) : (schema.uniform text n).at? path = some (.text text) := by
  induction path generalizing schema with
  | nil =>
      cases leaf
      rfl
  | cons name rest ih =>
      cases schema with
      | record title fields =>
          obtain ⟨next, known, below⟩ := Option.bind_eq_some_iff.mp leaf
          rw [uniform, Document.at?_object, value?_uniformEntries, known]
          exact ih below
      | _ => cases leaf

theorem Schema.Fits.append (fits : (Schema.record title fields).Fits (.object entries))
    (unknown : ∀ entry ∈ extra, entry.1 ∉ Entries.names fields) :
    (Schema.record title fields).Fits (.object (entries ++ extra)) := by
  cases fits with
  | record present typed =>
      refine .record ?_ ?_
      · intro key listed
        have there := present key listed
        simp only [Entries.names, List.map_append] at there ⊢
        exact List.mem_append_left _ there
      · intro key old schema listed known
        rcases List.mem_append.mp listed with before | later
        · exact typed key old schema before known
        · exact absurd (Entries.mem_names_of_value? known) (unknown _ later)

theorem ofDocument_of_fits {document : Document} (resolved : document.Resolved)
    (fits : schema.Fits document) : ∃ theme, ofDocument document = .ok theme := by
  obtain ⟨root, read⟩ := fits.read
  exact ⟨⟨root⟩, ofDocument_eq_ok_iff.mpr ⟨resolved, read⟩⟩

theorem undeclared_uniform (fields : List (String × Schema)) :
    undeclared fields (uniformEntries text n fields) = [] := by
  rw [undeclared, List.filter_eq_nil_iff]
  intro entry listed missing
  have named : entry.1 ∈ Entries.names fields := by
    rw [← names_uniformEntries text n]
    exact List.mem_map.mpr ⟨entry, listed, rfl⟩
  exact Entries.value?_eq_none.mp (Option.isNone_iff_eq_none.mp missing) named

theorem undeclared_uniformWith (unknown : ∀ entry ∈ extra, entry.1 ∉ Entries.names schema.fields) :
    undeclared schema.fields (uniformEntries text n schema.fields ++ extra) = extra := by
  have all : undeclared schema.fields extra = extra := by
    apply List.filter_eq_self.mpr
    intro entry listed
    exact Option.isNone_iff_eq_none.mpr (Entries.value?_eq_none.mpr (unknown entry listed))
  calc
    undeclared schema.fields (uniformEntries text n schema.fields ++ extra)
      = undeclared schema.fields (uniformEntries text n schema.fields) ++
          undeclared schema.fields extra := List.filter_append _ _
    _ = extra := by rw [undeclared_uniform, all, List.nil_append]

theorem Schema.plain_of_read_uniform {schema : Schema} {part : Part}
    (read : schema.read (schema.uniform text n) = .ok part) : part.Plain := by
  induction schema using Schema.induction generalizing part with
  | text =>
      rw [uniform, Schema.read] at read
      cases read
      exact .text text
  | number =>
      rw [uniform, Schema.read] at read
      cases read
      exact .number _
  | record title fields ih =>
      rcases read_record_eq_ok read with ⟨_, met, extra, declared, same, rfl, first, second⟩
      rw [uniform] at same
      cases same
      have parts := recordRead_of_ok first second
      rw [parts.rest, undeclared_uniform]
      apply Part.Plain.record
      intro entry listed
      rcases parts.found entry.1 entry.2 listed with ⟨schema, value, known, found, read⟩
      rw [value?_uniformEntries, known] at found
      cases found
      exact ih _ (Entries.mem_of_value? known) read

theorem ofDocument_uniformWith (plain : Token.isAlias text = false)
    (unknown : ∀ entry ∈ extra, entry.1 ∉ Entries.names schema.fields)
    (resolved : (Document.object extra).Resolved) :
    ∃ declared, ofDocument (uniformWith text n extra) = .ok ⟨.record declared extra⟩ := by
  have fits : schema.Fits (uniformWith text n extra) :=
    Schema.Fits.append (Schema.uniform_fits schema_wellFormed) unknown
  have first : (Document.object (uniformEntries text n schema.fields)).Resolved :=
    Schema.uniform_resolved plain schema
  have both : (uniformWith text n extra).Resolved := by
    rw [uniformWith, Document.resolved_object, List.forall_mem_append]
    exact ⟨Document.resolved_object.mp first, Document.resolved_object.mp resolved⟩
  obtain ⟨⟨root⟩, done⟩ := ofDocument_of_fits both fits
  cases Schema.reads_of_read (ofDocument_eq_ok_iff.mp done).2 with
  | @record _ _ _ declared _ parts _ =>
      obtain rfl := parts.rest.trans (undeclared_uniformWith unknown)
      exact ⟨declared, done⟩

theorem ofDocument_blankWith (unknown : ∀ entry ∈ extra, entry.1 ∉ Entries.names schema.fields)
    (resolved : (Document.object extra).Resolved) :
    ∃ declared, ofDocument (blankWith extra) = .ok ⟨.record declared extra⟩ :=
  ofDocument_uniformWith (by decide) unknown resolved

theorem ofDocument_uniform (plain : Token.isAlias text = false) (n : Number) :
    ∃ declared, ofDocument (uniformWith text n []) = .ok ⟨.record declared []⟩ :=
  ofDocument_uniformWith plain (List.forall_mem_nil _)
    (Document.resolved_object.mpr (List.forall_mem_nil _))

theorem ofDocument_blank : ∃ declared, ofDocument (blankWith []) = .ok ⟨.record declared []⟩ :=
  ofDocument_uniform (by decide) _

theorem plain_of_ofDocument_uniformWith {declared : Entries Part}
    (read : ofDocument (uniformWith text n extra) = .ok ⟨.record declared extra⟩) :
    ∀ entry ∈ declared, entry.2.Plain := by
  cases Schema.reads_of_read (ofDocument_eq_ok_iff.mp read).2 with
  | record parts _ =>
      intro entry listed
      rcases parts.found entry.1 entry.2 listed with ⟨field, value, known, found, read⟩
      have declares : Entries.value? entry.1 schema.fields = some field := known
      have given : Entries.value? entry.1 (uniformEntries text n schema.fields ++ extra) =
          some (field.uniform text n) := by
        apply Entries.value?_append_of_some
        rw [value?_uniformEntries, declares, Option.map_some]
      rw [given] at found
      cases found
      exact Schema.plain_of_read_uniform read

theorem uniformWith_distinct (unknown : ∀ entry ∈ extra, entry.1 ∉ Entries.names schema.fields)
    (distinct : (Document.object extra).Distinct) : (uniformWith text n extra).Distinct := by
  have first : (Document.object (uniformEntries text n schema.fields)).Distinct :=
    Schema.uniform_distinct schema_wellFormed
  refine ⟨?_, ?_⟩
  · rw [Entries.names, List.map_append, List.nodup_append]
    refine ⟨first.1, distinct.1, ?_⟩
    intro name early other later same
    obtain ⟨entry, listed, rfl⟩ := List.mem_map.mp later
    apply unknown entry listed
    rw [← names_uniformEntries text n, ← same]
    exact early
  · rw [Document.distinctEntries_iff, List.forall_mem_append]
    exact ⟨Document.distinctEntries_iff.mp first.2, Document.distinctEntries_iff.mp distinct.2⟩

theorem uniformWith_numbers {holds : Number → Prop} (here : holds n)
    (all : (Document.object extra).AllNumbers holds) :
    (uniformWith text n extra).AllNumbers holds := by
  have first : (Document.object (uniformEntries text n schema.fields)).AllNumbers holds :=
    Schema.uniform_numbers here schema
  rw [uniformWith, Document.AllNumbers, Document.allNumbersIn_iff, List.forall_mem_append]
  exact ⟨Document.allNumbersIn_iff.mp first, Document.allNumbersIn_iff.mp all⟩

theorem at?_uniformWith {path : List String} (leaf : schema.at? path = some .text) :
    (uniformWith text n extra).at? path = some (.text text) := by
  have held : (Document.object (uniformEntries text n schema.fields)).at? path = some (.text text) :=
    Schema.at?_uniform leaf
  cases path with
  | nil => cases leaf
  | cons name rest =>
      rw [Document.at?_object] at held
      obtain ⟨value, found, below⟩ := Option.bind_eq_some_iff.mp held
      rw [uniformWith, Document.at?_object, Entries.value?_append_of_some extra found]
      exact below

end DesignTokens.Theme
