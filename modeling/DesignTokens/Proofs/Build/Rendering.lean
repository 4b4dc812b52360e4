import DesignTokens.Build.Manifest
import DesignTokens.Proofs.Theme.Finite
import DesignTokens.Proofs.Toml.Writable

/-! The generated texts. Every theme that was assembled has one, and so has every manifest. -/

namespace DesignTokens.Theme

variable {schema : Schema} {part : Part} {fields : List (String × Schema)} {depth : Nat}

mutual

def Schema.nests : Nat → Schema → Bool
  | 0, .record _ _ => false
  | depth + 1, .record _ fields => nestsIn depth fields
  | _, _ => true

def Schema.nestsIn : Nat → List (String × Schema) → Bool
  | _, [] => true
  | depth, (_, schema) :: rest => Schema.nests depth schema && nestsIn depth rest

end

theorem Schema.nestsIn_iff :
    nestsIn depth fields = true ↔ ∀ entry ∈ fields, entry.2.nests depth = true := by
  induction fields with
  | nil => simp [nestsIn]
  | cons head rest ih => simp [nestsIn, ih]

theorem Schema.Solid.writable (solid : schema.Solid part) (sound : schema.wellFormed = true)
    (nested : schema.nests depth = true) : part.toDocument.compact.Writable depth := by
  induction solid generalizing depth with
  | text s => exact .text s
  | number finite =>
      rw [Part.toDocument, if_pos finite, Document.compact]
      exact .number (Number.signed_ofBinary64 finite)
  | @record title fields declared order each ih =>
      obtain ⟨-, distinct, below⟩ := wellFormed_record sound
      cases depth with
      | zero => simp [Schema.nests] at nested
      | succ depth =>
          rw [Schema.nests, Schema.nestsIn_iff] at nested
          rw [Part.compact_toDocument_record, Document.compactEntries, List.append_nil]
          apply Document.Writable.object
          · rw [← order] at distinct
            rwa [Entries.names, List.map_map]
          · rw [List.forall_mem_map]
            intro entry listed
            have declares : entry.1 ∈ Entries.names fields := by
              rw [← order]
              exact List.mem_map.mpr ⟨entry, listed, rfl⟩
            obtain ⟨⟨_, schema⟩, field, same⟩ := List.mem_map.mp declares
            subst same
            exact ih _ schema entry.2 (Entries.value?_of_mem distinct field) listed
              (below _ field) (nested _ field)

theorem schema_nests : Theme.schema.nests 79 = true := by decide +kernel

theorem writable_of_solid {theme : Theme} (solid : Theme.schema.Solid theme.root) :
    theme.toDocument.Writable 79 := solid.writable schema_wellFormed schema_nests

end DesignTokens.Theme

namespace DesignTokens.Build

open Theme

variable {theme : Theme}

theorem exists_entries (solid : Theme.schema.Solid theme.root) :
    ∃ entries, theme.toDocument = .object entries := by
  obtain ⟨root⟩ := theme
  cases solid with
  | record order each => exact ⟨_, Part.compact_toDocument_record _ _⟩

/-- A theme that was assembled has a text, whatever file it is said to come from. -/
theorem themeSource_eq_ok {entries : Entries Document} (solid : Theme.schema.Solid theme.root)
    (form : theme.toDocument = .object entries) (file : String) : themeSource theme file =
      .ok (header ++ "\n# Source: " ++ file ++ "\n\n" ++ (Toml.Sheet.ofEntries entries).text) := by
  have writable := writable_of_solid solid
  rw [form] at writable
  rw [themeSource, form]
  simp only [Document.entries?, Option.getD, render, Toml.render_of_writable writable]

def sourceText (theme : Theme) (file : String) : String :=
  header ++ "\n# Source: " ++ file ++ "\n\n" ++
    (Toml.Sheet.ofEntries (theme.toDocument.entries?.getD [])).text

theorem themeSource_eq_sourceText (solid : Theme.schema.Solid theme.root) (file : String) :
    themeSource theme file = .ok (sourceText theme file) := by
  obtain ⟨entries, form⟩ := exists_entries solid
  rw [themeSource_eq_ok solid form, sourceText, form]
  rfl

theorem Listing.writable (listing : Listing) (depth : Nat) :
    listing.toDocument.Writable (depth + 1) := by
  apply Document.Writable.object
  · simp [Entries.names]
  · simp [Document.Writable.text]

theorem Manifest.writable (manifest : Manifest) (depth : Nat) :
    (Document.object manifest.entries).Writable (depth + 3) := by
  apply Document.Writable.object
  · simp [Manifest.entries, Entries.names]
  · rw [Manifest.entries, List.forall_mem_singleton]
    exact .array (List.forall_mem_map.mpr fun listing _ => listing.writable depth)

def manifestText (manifest : Manifest) : String :=
  header ++ "\n\n" ++ (Toml.Sheet.ofEntries manifest.entries).text

theorem Manifest.text_eq_ok (manifest : Manifest) : manifest.text = .ok (manifestText manifest) := by
  rw [Manifest.text, render, Toml.render_of_writable (manifest.writable 0)]
  rfl

end DesignTokens.Build
