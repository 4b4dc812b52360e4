import DesignTokens.Proofs.Document.Compaction
import DesignTokens.Proofs.Theme.Uniform

/-!
The value form of a theme. In every record the declared fields come first and in the order of the
schema, then the other entries in their own; texts and structure are those of the document read, and
numbers keep their values.
-/

namespace DesignTokens.Theme

open Token

mutual

/-- The second document shows, in value form, what a schema reads in the first. -/
inductive Schema.Shown : Schema → Document → Document → Prop
  | text (s : String) : Schema.Shown .text (.text s) (.text s)
  | number {n m : Number} (tidied : n.Tidied m) : Schema.Shown .number (.number n) (.number m)
  | record {title : String} {fields : List (String × Schema)}
      {entries declared extra : Entries Document} (first : ShownFields fields entries declared)
      (rest : Document.TidiedEntries (undeclared fields entries) extra)
      (names : ∀ name, name ∈ Entries.names (declared ++ extra) ↔ name ∈ Entries.names entries) :
      Schema.Shown (.record title fields) (.object entries) (.object (declared ++ extra))

inductive ShownFields : List (String × Schema) → Entries Document → Entries Document → Prop
  | nil {entries : Entries Document} : ShownFields [] entries []
  | cons {name : String} {schema : Schema} {fields : List (String × Schema)}
      {entries declared : Entries Document} {value shown : Document}
      (found : entries.value? name = some value) (here : Schema.Shown schema value shown)
      (later : ShownFields fields entries declared) :
      ShownFields ((name, schema) :: fields) entries ((name, shown) :: declared)

end

def Schema.ExactNumbers (schema : Schema) (document : Document) : Prop :=
  ∀ path n, schema.at? path = some .number → document.at? path = some (.number n) → n.Exact

variable {document : Document} {schema : Schema} {part : Part} {title name : String}
  {fields : List (String × Schema)} {entries : Entries Document} {declared : Entries Part}
  {extra : Entries Document} {value : Document}

theorem Schema.ExactNumbers.field
    (exact : (Schema.record title fields).ExactNumbers (.object entries))
    (known : Entries.value? name fields = some schema) (found : entries.value? name = some value) :
    schema.ExactNumbers value := by
  intro path n asked held
  apply exact (name :: path) n
  · rw [Schema.at?, known]
    exact asked
  · rw [Document.at?_object, found]
    exact held

theorem Schema.exactNumbers_of_all (all : document.AllNumbers Number.Exact) :
    schema.ExactNumbers document := by
  intro path n _ held
  exact all.at held

theorem RecordRead.names_iff (parts : RecordRead fields entries declared extra) (name : String) :
    name ∈ Entries.names (Document.compactEntries (Part.declaredToDocuments declared ++ extra)) ↔
      name ∈ Entries.names entries := by
  rw [Document.names_compactEntries]
  have written : Entries.names (Part.declaredToDocuments declared ++ extra) =
      Entries.names declared ++ Entries.names (undeclared fields entries) := by
    rw [declaredToDocuments_eq, parts.rest]
    simp [Entries.names]
  rw [written, List.mem_append]
  constructor
  · intro listed
    rcases listed with first | rest
    · obtain ⟨⟨_, part⟩, here, rfl⟩ := List.mem_map.mp first
      obtain ⟨-, value, -, present, -⟩ := parts.found _ part here
      exact Entries.mem_names_of_value? present
    · obtain ⟨entry, here, rfl⟩ := List.mem_map.mp rest
      exact List.mem_map.mpr ⟨entry, (List.mem_filter.mp here).1, rfl⟩
  · intro listed
    obtain ⟨entry, here, rfl⟩ := List.mem_map.mp listed
    cases known : Entries.value? entry.1 fields with
    | none =>
        have kept : entry ∈ undeclared fields entries := List.mem_filter.mpr ⟨here, by simp [known]⟩
        exact .inr (List.mem_map.mpr ⟨entry, kept, rfl⟩)
    | some schema =>
        rw [parts.order]
        exact .inl (Entries.mem_names_of_value? known)

theorem shownFields_of_parts (order : Entries.names declared = Entries.names fields)
    (each : ∀ name schema part, (name, schema) ∈ fields → (name, part) ∈ declared →
      ∃ value, entries.value? name = some value ∧ schema.Shown value part.toDocument.compact) :
    ShownFields fields entries
      (Document.compactEntries (Part.declaredToDocuments declared)) := by
  induction fields generalizing declared with
  | nil =>
      obtain rfl := List.map_eq_nil_iff.mp order
      exact .nil
  | cons head rest ih =>
      obtain ⟨name, schema⟩ := head
      obtain ⟨⟨first, part⟩, others, rfl, same, later⟩ := List.map_eq_cons_iff.mp order
      cases same
      obtain ⟨value, found, shown⟩ := each name schema part List.mem_cons_self List.mem_cons_self
      exact .cons found shown (ih later fun name schema part listed here =>
        each name schema part (List.mem_cons_of_mem _ listed) (List.mem_cons_of_mem _ here))

theorem Schema.Reads.shown (reads : schema.Reads document part) (sound : schema.wellFormed = true)
    (exact : schema.ExactNumbers document) : schema.Shown document part.toDocument.compact := by
  induction reads with
  | text s => exact .text s
  | number n =>
      obtain ⟨finite, same⟩ := (exact [] n rfl rfl).toBinary64
      have tidied := Number.tidied_ofBinary64 n.toBinary64
      rw [Part.toDocument, if_pos finite]
      exact .number ⟨tidied.value.trans same, tidied.tidy⟩
  | @record title fields entries declared extra parts each ih =>
      obtain ⟨-, distinct, below⟩ := wellFormed_record sound
      rw [Part.toDocument, Document.compact, Document.compactEntries_append]
      refine .record (shownFields_of_parts parts.order ?_) ?_ ?_
      · intro name schema part field listed
        obtain ⟨schema', value, known, found, read⟩ := parts.found name part listed
        rw [Entries.value?_of_mem distinct field] at known
        cases known
        have here := Entries.value?_of_mem distinct field
        exact ⟨value, found, ih name schema value part (Entries.mem_of_value? found) here read
          (below _ field) (exact.field here found)⟩
      · rw [parts.rest]
        exact Document.tidied_compact (.object (undeclared fields entries))
      · rw [← Document.compactEntries_append]
        exact parts.names_iff

/--
A document with an alias is refused for an alias, whatever else is wrong. Any other is read exactly
when it fits the schema, and refused for its shape otherwise. What was read is shown in value form, as
long as every number that the schema asks for is the value of some word.
-/
theorem ofDocument_spec (document : Document) :
    ((∃ held ∈ document.texts, isAlias held.2 = true) →
      ∃ field s, ofDocument document = .error (.unresolvedAlias field s)) ∧
    ((∀ held ∈ document.texts, isAlias held.2 = false) →
      ((∃ theme, ofDocument document = .ok theme) ↔ Theme.schema.Fits document) ∧
      (¬ Theme.schema.Fits document → ∃ cause, ofDocument document = .error (.shape cause))) ∧
    ∀ theme, ofDocument document = .ok theme → Theme.schema.ExactNumbers document →
      Theme.schema.Shown document theme.toDocument := by
  refine ⟨?_, ?_, ?_⟩
  · intro aliased
    obtain ⟨held, listed, named⟩ := aliased
    have unresolved : ¬ document.Resolved := by
      intro resolved
      rw [resolved held listed] at named
      cases named
    obtain ⟨_, failed, place, s, -, -, rfl⟩ := ofDocument_of_alias unresolved
    exact ⟨_, s, failed⟩
  · intro resolved
    have fits : (∃ theme, ofDocument document = .ok theme) ↔ Theme.schema.Fits document := by
      constructor
      · intro done
        obtain ⟨theme, done⟩ := done
        exact Schema.read_isOk_iff.mp ⟨theme.root, (ofDocument_eq_ok_iff.mp done).2⟩
      · exact ofDocument_of_fits resolved
    refine ⟨fits, fun misfit => ?_⟩
    rw [ofDocument_of_resolved resolved]
    cases read : Theme.schema.read document with
    | error cause => exact ⟨cause, rfl⟩
    | ok root => exact absurd (Schema.read_isOk_iff.mp ⟨root, read⟩) misfit
  · intro theme done numbers
    have read := (ofDocument_eq_ok_iff.mp done).2
    exact (Schema.reads_of_read read).shown schema_wellFormed numbers

theorem ofDocument_with_note :
    (∃ field s, ofDocument (.object [("note", .text "\x7bNote\x7d")]) =
      .error (.unresolvedAlias field s)) ∧
    (∃ cause, ofDocument (.object [("note", .text "spring")]) = .error (.shape cause)) ∧
    ∃ theme, ofDocument (blankWith [("note", .text "spring")]) = .ok theme ∧
      Theme.schema.Shown (blankWith [("note", .text "spring")]) theme.toDocument := by
  refine ⟨?_, ?_, ?_⟩
  · obtain ⟨aliased, -⟩ := ofDocument_spec (.object [("note", .text "\x7bNote\x7d")])
    exact aliased ⟨(["note"], "\x7bNote\x7d"), by decide, by decide⟩
  · obtain ⟨-, plain, -⟩ := ofDocument_spec (.object [("note", .text "spring")])
    apply (plain (by decide)).2
    intro fits
    cases fits with
    | record present _ => exact absurd (present "name" List.mem_cons_self) (by decide)
  · have unknown : ∀ entry ∈ [("note", Document.text "spring")],
        entry.1 ∉ Entries.names Theme.schema.fields := by decide
    have resolved : (Document.object [("note", .text "spring")]).Resolved :=
      Document.firstAlias?_eq_none_iff.mp (by decide)
    have zero : (Number.integer 0).Exact := by
      refine ⟨.ofInt 0, by decide, ?_⟩
      rw [Binary64.value_of_isZero (by decide), Int.cast_zero]
    have numbers : Theme.schema.ExactNumbers (blankWith [("note", .text "spring")]) :=
      Schema.exactNumbers_of_all (uniformWith_numbers zero ⟨trivial, trivial⟩)
    obtain ⟨declared, read⟩ := ofDocument_blankWith unknown resolved
    obtain ⟨-, -, shown⟩ := ofDocument_spec (blankWith [("note", .text "spring")])
    exact ⟨_, read, shown _ read numbers⟩

end DesignTokens.Theme
