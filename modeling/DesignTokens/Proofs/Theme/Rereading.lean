import DesignTokens.Proofs.Document.Compaction
import DesignTokens.Proofs.Theme.Uniform
import DesignTokens.Theme.Base

/-!
A theme read again from its value form. Every theme can be, and so it can after deriving it with no
overrides. The value form stays as it is, but what the schema does not declare has lost the binary
form of its whole numbers, and equality of themes sees that.
-/

namespace DesignTokens.Number

theorem ofBinary64_toBinary64 (x : Binary64) :
    ofBinary64 (ofBinary64 x).toBinary64 = ofBinary64 x := by
  cases whole : x.whole? with
  | none => simp [ofBinary64, whole, toBinary64]
  | some z =>
      obtain ⟨same, small⟩ := Binary64.whole?_eq_some_iff.mp whole
      have value := (Binary64.value_ofInt (Binary64.whole?_eq_some whole).1 same).2
      have again := Binary64.whole?_eq_some_iff.mpr ⟨value, small⟩
      simp [ofBinary64, whole, toBinary64, again]

theorem isFinite_toBinary64_ofBinary64 (x : Binary64) :
    (ofBinary64 x).toBinary64.isFinite = x.isFinite := by
  cases whole : x.whole? with
  | none => simp [ofBinary64, whole, toBinary64]
  | some z =>
      have finite := (Binary64.whole?_eq_some whole).1
      have same := (Binary64.whole?_eq_some_iff.mp whole).1
      have rounded := (Binary64.value_ofInt finite same).1
      simp [ofBinary64, whole, toBinary64, finite, rounded]

end DesignTokens.Number

namespace DesignTokens.Theme

namespace Part

mutual

/-- The part that the value form of a part is read as. -/
def compact : Part → Part
  | .text s => .text s
  | .number x => .number (Number.ofBinary64 x).toBinary64
  | .record declared extra => .record (compactDeclared declared) (Document.compactEntries extra)

def compactDeclared : List (String × Part) → List (String × Part)
  | [] => []
  | (name, part) :: rest => (name, compact part) :: compactDeclared rest

end

/-- Every whole number of 53 bits that is not declared stands in integer form. -/
inductive Tidy : Part → Prop
  | text (value : String) : Tidy (.text value)
  | number (value : Binary64) : Tidy (.number value)
  | record {declared : List (String × Part)} {extra : List (String × Document)}
      (fields : ∀ entry ∈ declared, entry.2.Tidy)
      (rest : (Document.object extra).AllNumbers Number.Tidy) : Tidy (.record declared extra)

@[elab_as_elim]
theorem induction {motive : Part → Prop} (text : ∀ value, motive (.text value))
    (number : ∀ value, motive (.number value))
    (record : ∀ declared extra, (∀ entry ∈ declared, motive entry.2) →
      motive (.record declared extra))
    (part : Part) : motive part :=
  @Part.rec motive (fun declared => ∀ entry ∈ declared, motive entry.2) (fun entry => motive entry.2)
    text number record
    (List.forall_mem_nil _) (fun _ _ first others => List.forall_mem_cons.mpr ⟨first, others⟩)
    (fun _ _ below => below) part

theorem compactDeclared_eq (declared : Entries Part) :
    compactDeclared declared = declared.map fun entry => (entry.1, entry.2.compact) := by
  induction declared with
  | nil => rfl
  | cons head rest ih => rw [compactDeclared, ih, List.map_cons]

theorem compact_toDocument_record (declared : Entries Part) (extra : Entries Document) :
    (Part.record declared extra).toDocument.compact = .object
      (declared.map (fun entry => (entry.1, entry.2.toDocument.compact)) ++
        Document.compactEntries extra) := by
  rw [toDocument, Document.compact, Document.compactEntries_append, declaredToDocuments_eq,
    Document.compactEntries_eq (List.map _ _), List.map_map]
  rfl

theorem toDocument_compact (part : Part) :
    part.compact.toDocument.compact = part.toDocument.compact := by
  induction part using induction with
  | text s => rfl
  | number x =>
      rw [compact, toDocument, toDocument, Number.isFinite_toBinary64_ofBinary64]
      split
      · rw [Document.compact, Document.compact, Number.ofBinary64_toBinary64]
      · rfl
  | record declared extra ih =>
      have fields : declared.map (fun entry => (entry.1, entry.2.compact.toDocument.compact)) =
          declared.map fun entry => (entry.1, entry.2.toDocument.compact) := by
        apply List.map_congr_left
        intro entry listed
        rw [ih entry listed]
      have rest := Document.compact_compact (.object extra)
      rw [Document.compact, Document.compact, Document.object.injEq] at rest
      rw [compact, compact_toDocument_record, compact_toDocument_record, compactDeclared_eq,
        List.map_map, ← fields, rest]
      rfl

theorem sameDeclared_compact {declared : Entries Part} :
    sameDeclared (compactDeclared declared) declared = true ↔
      ∀ entry ∈ declared, entry.2.compact.same entry.2 = true := by
  induction declared with
  | nil => simp [compactDeclared, sameDeclared]
  | cons head rest ih => simp [compactDeclared, sameDeclared, ih]

end Part

variable {document : Document} {theme : Theme} {schema : Schema} {part : Part}
  {fields : List (String × Schema)} {entries : Entries Document} {met declared : Entries Part}
  {extra : Entries Document}

theorem readEntries_compact
    (each : ∀ entry ∈ declared, ∃ schema, Entries.value? entry.1 fields = some schema ∧
      schema.read entry.2.toDocument.compact = .ok entry.2.compact)
    (unknown : ∀ entry ∈ extra, Entries.value? entry.1 fields = none) :
    readEntries fields
        (declared.map (fun entry => (entry.1, entry.2.toDocument.compact)) ++ extra) =
      .ok (Part.compactDeclared declared, extra) := by
  -- First through the declared parts, then through what follows them.
  induction declared with
  | cons head rest ih =>
      obtain ⟨⟨schema, known, read⟩, later⟩ := List.forall_mem_cons.mp each
      simp [readEntries, known, read, ih later, Part.compactDeclared]
  | nil =>
      rw [List.map_nil, List.nil_append, Part.compactDeclared]
      induction extra with
      | nil => rfl
      | cons head rest ih =>
          obtain ⟨fresh, later⟩ := List.forall_mem_cons.mp unknown
          simp [readEntries, fresh, ih later]

theorem complete_of_found (order : Entries.names declared = Entries.names fields)
    (found : ∀ entry ∈ declared, met.value? entry.1 = some entry.2) :
    complete fields met = .ok declared := by
  induction fields generalizing declared with
  | nil =>
      obtain rfl := List.map_eq_nil_iff.mp order
      rfl
  | cons head rest ih =>
      obtain ⟨name, schema⟩ := head
      obtain ⟨⟨_, part⟩, others, rfl, same, later⟩ := List.map_eq_cons_iff.mp order
      cases same
      obtain ⟨here, behind⟩ := List.forall_mem_cons.mp found
      simp [complete, here, ih later behind]

theorem Schema.Reads.read_compact (reads : schema.Reads document part)
    (sound : schema.wellFormed = true) (fit : document.AllNumbers Number.Fits) :
    schema.read part.toDocument.compact = .ok part.compact := by
  induction reads with
  | text s => simp only [Part.toDocument, Document.compact, Schema.read, Part.compact]
  | number n =>
      have finite : n.toBinary64.isFinite = true := Number.Fits.isFinite fit
      rw [Part.toDocument, if_pos finite, Document.compact, Schema.read, Part.compact]
  | @record title fields entries declared extra parts each ih =>
      obtain ⟨-, distinct, below⟩ := wellFormed_record sound
      have numbers := Document.allNumbersIn_iff.mp fit
      have again : ∀ entry ∈ declared, ∃ schema, Entries.value? entry.1 fields = some schema ∧
          schema.read entry.2.toDocument.compact = .ok entry.2.compact := by
        intro entry listed
        obtain ⟨schema, value, known, found, read⟩ := parts.found entry.1 entry.2 listed
        have held := Entries.mem_of_value? found
        exact ⟨schema, known, ih entry.1 schema value entry.2 held known read
          (below _ (Entries.mem_of_value? known)) (numbers _ held)⟩
      have unknown : ∀ entry ∈ Document.compactEntries extra,
          Entries.value? entry.1 fields = none := by
        rw [Document.compactEntries_eq, parts.rest, List.forall_mem_map]
        intro entry listed
        simpa using (List.mem_filter.mp listed).2
      have order : Entries.names (Part.compactDeclared declared) = Entries.names fields := by
        rw [← parts.order, Part.compactDeclared_eq]
        simp [Entries.names]
      have met : ∀ entry ∈ Part.compactDeclared declared,
          Entries.value? entry.1 (Part.compactDeclared declared) = some entry.2 := by
        intro entry listed
        exact Entries.value?_of_mem (order ▸ distinct) listed
      rw [Part.compact_toDocument_record, Schema.read, readEntries_compact again unknown]
      simp only [complete_of_found order met, Part.compact]

/-- Equality tells a part from what its value form is read as exactly when it is not tidy. -/
theorem Schema.Reads.same_compact_iff (reads : schema.Reads document part)
    (distinct : document.Distinct) (fit : document.AllNumbers Number.Fits) :
    part.compact.same part = true ↔ part.Tidy := by
  induction reads with
  | text s => simp [Part.compact, Part.same, Part.Tidy.text]
  | number n =>
      have finite : n.toBinary64.isFinite = true := Number.Fits.isFinite fit
      simp [Part.compact, Part.same, Part.Tidy.number,
        Number.sameValue_toBinary64_ofBinary64 finite]
  | @record title fields entries declared extra parts each ih =>
      have numbers := Document.allNumbersIn_iff.mp fit
      have inner := Document.distinctEntries_iff.mp distinct.2
      have within : ∀ entry ∈ extra, entry ∈ entries := by
        rw [parts.rest]
        exact fun entry listed => (List.mem_filter.mp listed).1
      have first : ∀ entry ∈ declared, entry.2.compact.same entry.2 = true ↔ entry.2.Tidy := by
        intro entry listed
        obtain ⟨schema, value, known, found, read⟩ := parts.found entry.1 entry.2 listed
        have held := Entries.mem_of_value? found
        exact ih entry.1 schema value entry.2 held known read (inner _ held) (numbers _ held)
      have names : (Entries.names extra).Nodup := by
        rw [parts.rest]
        exact Entries.names_filter_nodup _ distinct.1
      have values : Document.DistinctEntries extra :=
        Document.distinctEntries_iff.mpr fun entry listed => inner _ (within _ listed)
      have kept : (Document.object extra).Distinct := ⟨names, values⟩
      -- Fields are compared as parts, by the induction; the rest is compared as documents.
      have rest : (Document.object (Document.compactEntries extra)).same (.object extra) = true ↔
          (Document.object extra).AllNumbers Number.Tidy := by
        apply Document.same_compact_iff kept
        exact Document.allNumbersIn_iff.mpr fun entry listed => numbers _ (within _ listed)
      rw [Part.compact, Part.same, Bool.and_eq_true, Part.sameDeclared_compact, rest]
      constructor
      · intro both
        exact .record (fun entry listed => (first entry listed).mp (both.1 entry listed)) both.2
      · intro tidy
        cases tidy with
        | record each others =>
            exact ⟨fun entry listed => (first entry listed).mpr (each entry listed), others⟩

theorem ofDocument_toDocument (read : ofDocument document = .ok theme)
    (fit : document.AllNumbers Number.Fits) :
    ofDocument theme.toDocument = .ok ⟨theme.root.compact⟩ := by
  have reads := Schema.reads_of_read (ofDocument_eq_ok_iff.mp read).2
  exact ofDocument_eq_ok_iff.mpr
    ⟨ofDocument_resolved read, reads.read_compact schema_wellFormed fit⟩

theorem toDocument_eq_object (read : ofDocument document = .ok theme) :
    ∃ entries, theme.toDocument = .object entries := by
  rcases theme with ⟨root⟩
  cases Schema.reads_of_read (ofDocument_eq_ok_iff.mp read).2 with
  | record parts each => exact ⟨_, Part.compact_toDocument_record _ _⟩

theorem create_empty (read : ofDocument document = .ok theme) (base : Base) :
    create .empty (some theme) base = (.ok ⟨theme.toDocument⟩, base) := by
  have unchanged : theme.toDocument.merge (.object []) = theme.toDocument := by
    obtain ⟨entries, form⟩ := toDocument_eq_object read
    rw [form, Document.merge, Document.mergeEntries]
  have passed : Draft.ofDocument theme.toDocument = .ok ⟨theme.toDocument⟩ :=
    Draft.ofDocument_eq_ok_iff.mpr ⟨ofDocument_resolved read, rfl⟩
  rw [create, derive, Overrides.toDocument, Overrides.empty, unchanged, passed]

/--
Reading the value form of a theme, or deriving from it with no overrides, gives a theme of the same
value form. It equals the first exactly when all that the first holds undeclared is tidy.
-/
theorem reread_spec (read : ofDocument document = .ok theme) (distinct : document.Distinct)
    (fit : document.AllNumbers Number.Fits) (base : Base) :
    ∃ again, ofDocument theme.toDocument = .ok again ∧
      again.toDocument = theme.toDocument ∧
      (again.same theme = true ↔ theme.root.Tidy) ∧
      ∃ draft, (create .empty (some theme) base).1 = .ok draft ∧ draft.toTheme = .ok again := by
  have second := ofDocument_toDocument read fit
  have reads := Schema.reads_of_read (ofDocument_eq_ok_iff.mp read).2
  refine ⟨⟨theme.root.compact⟩, second, Part.toDocument_compact theme.root, ?_, ?_⟩
  · exact reads.same_compact_iff distinct fit
  · rw [create_empty read base]
    exact ⟨_, rfl, second⟩

theorem reread_with_note : ∃ theme, ofDocument (blankWith [("note", .text "spring")]) = .ok theme ∧
    ∃ again, ofDocument theme.toDocument = .ok again ∧ again.toDocument = theme.toDocument ∧
      (again.same theme = true ↔ theme.root.Tidy) ∧
      ∃ draft, (create .empty (some theme) .unset).1 = .ok draft ∧ draft.toTheme = .ok again := by
  have unknown : ∀ entry ∈ [("note", Document.text "spring")],
      entry.1 ∉ Entries.names schema.fields := by decide
  have resolved : (Document.object [("note", .text "spring")]).Resolved :=
    Document.firstAlias?_eq_none_iff.mp (by decide)
  obtain ⟨declared, read⟩ := ofDocument_blankWith unknown resolved
  have distinct : (blankWith [("note", .text "spring")]).Distinct :=
    uniformWith_distinct unknown ⟨by decide, trivial, trivial⟩
  have fit : (blankWith [("note", .text "spring")]).AllNumbers Number.Fits :=
    uniformWith_numbers (by decide) ⟨trivial, trivial⟩
  exact ⟨_, read, reread_spec read distinct fit .unset⟩

/-- A whole number that is not declared comes back in integer form, and the themes differ. -/
theorem reread_binary_two : ∃ theme again,
    ofDocument (blankWith [("zz", .number (.binary (.ofInt 2)))]) = .ok theme ∧
    ofDocument theme.toDocument = .ok again ∧ again.same theme = false ∧
    ∃ draft, (create .empty (some theme) .unset).1 = .ok draft ∧ draft.toTheme = .ok again := by
  have unknown : ∀ entry ∈ [("zz", Document.number (.binary (.ofInt 2)))],
      entry.1 ∉ Entries.names schema.fields := by decide
  have resolved : (Document.object [("zz", .number (.binary (.ofInt 2)))]).Resolved :=
    Document.firstAlias?_eq_none_iff.mp (by decide)
  obtain ⟨declared, read⟩ := ofDocument_blankWith unknown resolved
  have distinct : (blankWith [("zz", .number (.binary (.ofInt 2)))]).Distinct :=
    uniformWith_distinct unknown ⟨by decide, trivial, trivial⟩
  have two : Number.Fits (.binary (.ofInt 2)) := by decide +kernel
  have fit : (blankWith [("zz", .number (.binary (.ofInt 2)))]).AllNumbers Number.Fits :=
    uniformWith_numbers (by decide) ⟨two, trivial⟩
  have reads := Schema.reads_of_read (ofDocument_eq_ok_iff.mp read).2
  have again := ofDocument_toDocument read fit
  refine ⟨_, _, read, again, ?_, ?_⟩
  · rw [same, Bool.eq_false_iff, Ne, reads.same_compact_iff distinct fit]
    intro tidy
    cases tidy with
    | record _ rest =>
        have kept := Number.ofBinary64_eq_iff.mpr rest.1
        exact absurd kept (by decide +kernel)
  · rw [create_empty read .unset]
    exact ⟨_, rfl, again⟩

end DesignTokens.Theme
