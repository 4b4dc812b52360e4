import DesignTokens.Proofs.Build.Rendering
import DesignTokens.Proofs.Theme.Checked
import DesignTokens.Proofs.Toml.Reading

/-!
Generated texts read back. Laying a theme out moves plain values before tables, and reading goes by
names, so what is read is the theme that was written; a manifest is read as the listings in it.
-/

namespace DesignTokens.Toml

variable {entries : Entries Document} {entry : String × Document}

theorem mem_arranged
    (member : entry ∈ plainEntries entries ++ arrangeSections entries) :
    ∃ value, (entry.1, value) ∈ entries ∧ entry.2 = arrange value := by
  rcases List.mem_append.mp member with plain | table
  · obtain ⟨present, held⟩ := List.mem_filter.mp plain
    exact ⟨entry.2, present, (arrange_of_plain (by simpa using held)).symm⟩
  · rw [arrangeSections_eq] at table
    obtain ⟨entry, present, rfl⟩ := List.mem_map.mp table
    exact ⟨entry.2, (List.mem_filter.mp present).1, rfl⟩

end DesignTokens.Toml

namespace DesignTokens.Theme

open Toml

variable {title : String} {fields : List (String × Schema)} {entries : Entries Document}
  {declared : Entries Part} {schema : Schema} {part : Part} {depth : Nat} {theme : Theme}

theorem Schema.read_record (order : Entries.names declared = Entries.names fields)
    (reads : ∀ entry ∈ entries, ∃ schema part, Entries.value? entry.1 fields = some schema ∧
      schema.read entry.2 = .ok part)
    (each : ∀ entry ∈ declared, ∃ schema value, Entries.value? entry.1 fields = some schema ∧
      entries.value? entry.1 = some value ∧ schema.read value = .ok entry.2) :
    (Schema.record title fields).read (.object entries) = .ok (.record declared []) := by
  obtain ⟨met, extra, first⟩ := readEntries_isOk fun name value schema listed known => by
    obtain ⟨schema', part, known', read⟩ := reads (name, value) listed
    rw [known, Option.some.injEq] at known'
    exact ⟨part, known' ▸ read⟩
  have nothing : extra = [] := by
    rw [readEntries_rest first, undeclared, List.filter_eq_nil_iff]
    intro entry listed
    obtain ⟨schema, -, known, -⟩ := reads entry listed
    simp [known]
  have found : ∀ entry ∈ declared, met.value? entry.1 = some entry.2 := by
    intro entry listed
    obtain ⟨schema, value, known, present, read⟩ := each entry listed
    rcases value?_readEntries first known with ⟨missing, -⟩ | ⟨value', part, present', read', here⟩
    · rw [present] at missing
      cases missing
    · rw [present, Option.some.injEq] at present'
      rw [← present', read, Except.ok.injEq] at read'
      rw [here, read']
  simp only [Schema.read, first, complete_of_found order found, nothing]

theorem exists_schema (order : Entries.names declared = Entries.names fields)
    {entry : String × Part} (listed : entry ∈ declared) : ∃ schema, (entry.1, schema) ∈ fields := by
  have name : entry.1 ∈ Entries.names fields := order ▸ List.mem_map.mpr ⟨entry, listed, rfl⟩
  obtain ⟨⟨_, schema⟩, field, rfl⟩ := List.mem_map.mp name
  exact ⟨schema, field⟩

theorem Schema.read_arrangeEntries (order : Entries.names declared = Entries.names fields)
    (distinct : (Entries.names fields).Nodup)
    (unique : (Entries.names (declared.map fun entry =>
      (entry.1, entry.2.toDocument.compact))).Nodup)
    (back : ∀ entry ∈ declared, ∀ schema, (entry.1, schema) ∈ fields →
      schema.read (arrange entry.2.toDocument.compact) = .ok entry.2.compact) :
    (Schema.record title fields).read
        (arrange (.object (declared.map fun entry => (entry.1, entry.2.toDocument.compact)))) =
      .ok (.record (declared.map fun entry => (entry.1, entry.2.compact)) []) := by
  have known : ∀ entry ∈ declared, ∃ schema, Entries.value? entry.1 fields = some schema ∧
      schema.read (arrange entry.2.toDocument.compact) = .ok entry.2.compact := by
    intro entry listed
    obtain ⟨schema, field⟩ := exists_schema order listed
    exact ⟨schema, Entries.value?_of_mem distinct field, back entry listed schema field⟩
  rw [arrange]
  apply Schema.read_record
  · rw [← order]
    simp [Entries.names]
  · intro entry listed
    obtain ⟨value, present, arranged⟩ := mem_arranged listed
    obtain ⟨held, origin, same⟩ := List.mem_map.mp present
    obtain ⟨schema, field, read⟩ := known held origin
    obtain ⟨name, rfl⟩ := Prod.mk.inj same
    rw [name] at field
    rw [← arranged] at read
    exact ⟨schema, _, field, read⟩
  · intro entry listed
    obtain ⟨held, origin, rfl⟩ := List.mem_map.mp listed
    obtain ⟨schema, field, read⟩ := known held origin
    refine ⟨schema, arrange held.2.toDocument.compact, field, ?_, read⟩
    have here : (held.1, held.2.toDocument.compact) ∈
        declared.map fun entry => (entry.1, entry.2.toDocument.compact) :=
      List.mem_map.mpr ⟨held, origin, rfl⟩
    rw [value?_arrange unique, Entries.value?_of_mem unique here]
    rfl

/-- A part is read back from its value form, laid out. -/
theorem Schema.Solid.read_arrange (solid : schema.Solid part) (sound : schema.wellFormed = true)
    (nested : schema.nests depth = true) :
    schema.read (arrange part.toDocument.compact) = .ok part.compact := by
  induction solid generalizing depth with
  | text s => rfl
  | number finite =>
      rw [Part.toDocument, if_pos finite, Document.compact, Part.compact]
      rfl
  | @record title fields declared order each ih =>
      have whole : (Schema.record title fields).Solid (.record declared []) := .record order each
      have unique := (whole.writable sound nested).distinct
      obtain ⟨-, distinct, below⟩ := wellFormed_record sound
      rw [Part.compact_toDocument_record, Document.compactEntries, List.append_nil] at unique ⊢
      rw [Part.compact, Part.compactDeclared_eq, Document.compactEntries]
      apply Schema.read_arrangeEntries order distinct unique.1
      intro entry listed schema field
      have known := Entries.value?_of_mem distinct field
      obtain ⟨inner, nested⟩ : ∃ inner, schema.nests inner = true := by
        cases depth with
        | zero => cases nested
        | succ inner =>
            rw [Schema.nests, Schema.nestsIn_iff] at nested
            exact ⟨inner, nested _ field⟩
      exact ih entry.1 schema entry.2 known listed (below _ field) nested

theorem Schema.Solid.resolved_arrange (solid : schema.Solid part) (sound : schema.wellFormed = true)
    (nested : schema.nests depth = true) (resolved : part.toDocument.compact.Resolved) :
    (arrange part.toDocument.compact).Resolved := by
  induction solid generalizing depth with
  | text s => exact resolved
  | number finite =>
      rw [Part.toDocument, if_pos finite, Document.compact] at resolved ⊢
      exact resolved
  | @record title fields declared order each ih =>
      obtain ⟨-, distinct, below⟩ := wellFormed_record sound
      rw [Part.compact_toDocument_record, Document.compactEntries, List.append_nil] at resolved ⊢
      cases depth with
      | zero => simp [Schema.nests] at nested
      | succ depth =>
          rw [Schema.nests, Schema.nestsIn_iff] at nested
          rw [arrange, Document.resolved_object]
          intro entry listed
          obtain ⟨value, present, arranged⟩ := mem_arranged listed
          obtain ⟨held, origin, same⟩ := List.mem_map.mp present
          obtain ⟨schema, field⟩ := exists_schema order origin
          obtain ⟨-, rfl⟩ := Prod.mk.inj same
          rw [arranged]
          exact ih held.1 schema held.2 (Entries.value?_of_mem distinct field) origin
            (below _ field) (nested _ field) (Document.resolved_object.mp resolved _ present)

theorem Schema.Solid.same_compact (solid : schema.Solid part) (sound : schema.wellFormed = true) :
    part.compact.same part = true := by
  induction solid with
  | text s => simp [Part.compact, Part.same]
  | number finite => exact Number.sameValue_toBinary64_ofBinary64 finite
  | @record title fields declared order each ih =>
      obtain ⟨-, distinct, below⟩ := wellFormed_record sound
      rw [Part.compact, Part.same, Bool.and_eq_true, Part.sameDeclared_compact]
      refine ⟨fun entry listed => ?_, rfl⟩
      obtain ⟨schema, field⟩ := exists_schema order listed
      exact ih entry.1 schema entry.2 (Entries.value?_of_mem distinct field) listed (below _ field)

theorem name_compact (solid : Theme.schema.Solid theme.root) :
    (⟨theme.root.compact⟩ : Theme).name = theme.name := by
  obtain ⟨root⟩ := theme
  cases solid with
  | record order each =>
      rw [Theme.name, Theme.name, Part.compact, Part.field?, Part.field?, Part.compactDeclared_eq,
        Entries.value?_map]
      cases Entries.value? "name" _ with
      | none => rfl
      | some part => cases part <;> rfl

theorem ofDocument_arrange (solid : Theme.schema.Solid theme.root)
    (resolved : theme.toDocument.Resolved) :
    ∃ again, ofDocument (arrange theme.toDocument) = .ok again ∧ again.name = theme.name ∧
      again.same theme = true := by
  refine ⟨⟨theme.root.compact⟩, ?_, name_compact solid, solid.same_compact schema_wellFormed⟩
  exact ofDocument_eq_ok_iff.mpr
    ⟨solid.resolved_arrange schema_wellFormed schema_nests resolved,
      solid.read_arrange schema_wellFormed schema_nests⟩

end DesignTokens.Theme

namespace DesignTokens.Build

open Theme Toml

variable {theme : Theme} {manifest : Manifest} {entries : Entries Document} {sheet : Sheet}
  {file body : String} {depth : Nat}

theorem header_spelled : ∃ chars, header.toList = '#' :: chars ∧ ∀ c ∈ chars, isPlain c = true := by
  refine ⟨" Auto-generated by cast-build - DO NOT EDIT".toList, ?_, ?_⟩
  · rfl
  · exact List.all_eq_true.mp (by decide)

/-- The two lines before a theme are comments, if the name of its file may stand in one. -/
theorem read_sourced (plain : ∀ c ∈ file.toList, isPlain c = true) (reads : Reads body.toList sheet) :
    Toml.read (header ++ "\n# Source: " ++ file ++ "\n\n" ++ body) = sheet.toDocument := by
  obtain ⟨chars, spelled, first⟩ := header_spelled
  have second : ∀ c ∈ " Source: ".toList ++ file.toList, isPlain c = true :=
    List.forall_mem_append.mpr ⟨List.all_eq_true.mp (by decide), plain⟩
  apply read_of_reads _ ((reads.blank.comment second).comment first)
  simp [spelled]

theorem read_sourceText (solid : Theme.schema.Solid theme.root)
    (plain : ∀ c ∈ file.toList, isPlain c = true) :
    Toml.read (sourceText theme file) = some (arrange theme.toDocument) := by
  obtain ⟨entries, form⟩ := exists_entries solid
  have writable := writable_of_solid solid
  rw [form] at writable
  have reads := reads_ofEntries writable (by decide)
  rw [sourceText, form, Document.entries?, Option.getD_some, read_sourced plain reads,
    toDocument_ofEntries writable.distinct]

theorem read_headed (writable : (Document.object entries).Writable depth)
    (few : depth ≤ maxDepth + 1) :
    Toml.read (header ++ "\n\n" ++ (Sheet.ofEntries entries).text) =
      some (arrange (.object entries)) := by
  obtain ⟨chars, spelled, first⟩ := header_spelled
  have reads := (reads_ofEntries writable few).blank.comment first
  rw [← toDocument_ofEntries writable.distinct]
  exact read_of_reads (by simp [spelled]) reads

theorem Listing.arrange_toDocument (listing : Listing) :
    arrange listing.toDocument = listing.toDocument := rfl

theorem Manifest.arrange_entries (some : manifest.listings ≠ []) :
    arrange (.object manifest.entries) = .object manifest.entries := by
  have tables : isSection (.array (manifest.listings.map Listing.toDocument)) = true := by
    apply isSection_tables (by simpa using some)
    exact List.forall_mem_map.mpr fun _ _ => rfl
  have items : arrangeItems (manifest.listings.map Listing.toDocument) =
      manifest.listings.map Listing.toDocument := by
    rw [arrangeItems_eq, List.map_map]
    exact List.map_congr_left fun listing _ => listing.arrange_toDocument
  simp [Manifest.entries, arrange, plainEntries, arrangeSections, tables, items]

theorem Listing.ofDocument?_toDocument (listing : Listing) :
    ofDocument? listing.toDocument = some listing := by
  simp [toDocument, ofDocument?, Entries.value?, Document.text?]

theorem Listing.mapM_toDocument (listings : List Listing) :
    (listings.map toDocument).mapM ofDocument? = some listings := by
  induction listings with
  | nil => rfl
  | cons listing rest ih => simp [ofDocument?_toDocument, ih]

theorem Manifest.read_manifestText (some : manifest.listings ≠ []) (file : String) :
    Manifest.read file (manifestText manifest) = .ok manifest := by
  have found : ofDocument? (.object manifest.entries) = .some manifest := by
    simp [ofDocument?, Manifest.entries, Document.entries?, Entries.value?, -List.mapM_map,
      Listing.mapM_toDocument]
  rw [Manifest.read, manifestText, read_headed (manifest.writable 0) (by decide),
    Manifest.arrange_entries some, Option.bind_some, found]

end DesignTokens.Build
