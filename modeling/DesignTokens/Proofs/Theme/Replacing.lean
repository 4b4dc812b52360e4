import DesignTokens.Proofs.Document.Nulls
import DesignTokens.Proofs.Theme.Deriving
import DesignTokens.Proofs.Theme.Reordered

/-!
A whole theme as overrides. Every field of the theme below is given anew, and what the upper theme
holds beside its fields follows behind them, so that nothing of the lower theme is left.
-/

namespace DesignTokens.Document

variable {base changes fresh : Entries Document} {document : Document}

theorem mergeEntries_append (base first second : Entries Document) :
    mergeEntries base (first ++ second) = mergeEntries (mergeEntries base first) second := by
  induction first generalizing base with
  | nil => rw [List.nil_append, mergeEntries]
  | cons head rest ih =>
      rcases head with ⟨name, value⟩
      cases speaks : value.isNull with
      | true =>
          cases eq_null speaks
          rw [List.cons_append, mergeEntries_null, mergeEntries_null, ih]
      | false => rw [List.cons_append, mergeEntries_cons speaks, mergeEntries_cons speaks, ih]

theorem mergeEntries_of_names (order : base.names = changes.names) (distinct : changes.names.Nodup)
    (each : ∀ name held change, base.value? name = some held → changes.value? name = some change →
      change.isNull = false ∧ merge held change = change) :
    mergeEntries base changes = changes := by
  apply Entries.eq_of_names
  · have nothing : (spoken changes).filter (fun entry => entry.1 ∉ base.names) = [] := by
      apply List.filter_eq_nil_iff.mpr
      intro entry listed
      have known : entry.1 ∈ base.names := by
        rw [order]
        exact names_spoken_subset changes (List.mem_map.mpr ⟨entry, listed, rfl⟩)
      simp [known]
    rw [names_mergeEntries distinct, nothing, order]
    exact List.append_nil _
  · exact nodup_names_mergeEntries (order ▸ distinct) distinct
  · intro name
    rw [value?_mergeEntries_eq distinct]
    cases given : changes.value? name with
    | none =>
        have absent : base.value? name = none := by
          rw [Entries.value?_eq_none, order]
          exact Entries.value?_eq_none.mp given
        rw [absent]
        rfl
    | some change =>
        cases found : base.value? name with
        | none =>
            have known := Entries.mem_names_of_value? given
            rw [← order] at known
            exact absurd known (Entries.value?_eq_none.mp found)
        | some held =>
            rcases each name held change found given with ⟨speaks, same⟩
            rw [layered_of_spoken _ speaks, Option.getD_some, same]

theorem isNull_compact (value : Document) : value.compact.isNull = value.isNull := by
  cases value with
  | number n => cases n <;> rfl
  | _ => rfl

theorem Outspoken.compact (outspoken : document.Outspoken) : document.compact.Outspoken := by
  induction outspoken with
  | @leaf document closed =>
      apply Outspoken.leaf
      cases document with
      | object entries => cases closed
      | number n => cases n <;> rfl
      | _ => rfl
  | @object entries given each ih =>
      rw [Document.compact, outspoken_object, compactEntries_eq, List.forall_mem_map]
      intro entry listed
      rw [isNull_compact]
      exact ⟨given entry listed, ih entry listed⟩

end DesignTokens.Document

namespace DesignTokens.Theme

variable {document other : Document} {theme upper : Theme} {schema : Schema} {old new part : Part}
  {fields : List (String × Schema)} {entries others extra : Entries Document}
  {declared declared' : Entries Part}

/-- Nothing that a part keeps beside its fields holds a `null` entry, down through objects. -/
inductive Part.Outspoken : Part → Prop
  | text (value : String) : Outspoken (.text value)
  | number (value : Binary64) : Outspoken (.number value)
  | record {declared : List (String × Part)} {extra : List (String × Document)}
      (fields : ∀ entry ∈ declared, entry.2.Outspoken) (rest : (Document.object extra).Outspoken) :
      Outspoken (.record declared extra)

theorem Part.Plain.outspoken (plain : part.Plain) : part.Outspoken := by
  induction plain with
  | text value => exact .text value
  | number value => exact .number value
  | record fields ih =>
      exact .record ih (Document.outspoken_object.mpr (List.forall_mem_nil _))

theorem Schema.Reads.isNull_toDocument (reads : schema.Reads document part)
    (fit : document.AllNumbers Number.Fits) : part.toDocument.compact.isNull = false := by
  cases reads with
  | text s => rfl
  | number n =>
      have finite : n.toBinary64.isFinite = true := Number.Fits.isFinite fit
      rw [Part.toDocument, if_pos finite]
      rfl
  | record parts each =>
      rw [Part.compact_toDocument_record]
      rfl

theorem written_eq (declared : Entries Part) (extra : Entries Document) :
    written declared extra = written declared [] ++ Document.compactEntries extra := by
  simp [written, Document.compactEntries]

theorem names_written_nil (declared : Entries Part) :
    (written declared []).names = declared.names := by
  simp [written, Document.compactEntries, Entries.names]

theorem value?_written_nil (name : String) (declared : Entries Part) :
    (written declared []).value? name =
      (declared.value? name).map fun part => part.toDocument.compact := by
  rw [written, Document.compactEntries, List.append_nil]
  exact Entries.value?_map (fun part : Part => part.toDocument.compact) name declared

theorem RecordRead.mergeEntries_written (parts : RecordRead fields entries declared extra)
    (parts' : RecordRead fields others declared' []) (fresh : (Entries.names fields).Nodup)
    (distinct : entries.names.Nodup) (rest : (Document.object extra).Outspoken)
    (each : ∀ name lower upper, declared'.value? name = some lower →
      declared.value? name = some upper → upper.toDocument.compact.isNull = false ∧
        lower.toDocument.compact.merge upper.toDocument.compact = upper.toDocument.compact) :
    Document.mergeEntries (written declared' []) (written declared extra) =
      written declared extra := by
  have order : (written declared' []).names = (written declared []).names := by
    rw [names_written_nil, names_written_nil, parts'.order, parts.order]
  have first : (written declared []).names.Nodup := by
    rwa [names_written_nil, parts.order]
  have unique : (written declared extra).names.Nodup := parts.nodup_written fresh distinct
  rw [written_eq declared extra, Entries.names, List.map_append] at unique
  have replaced : Document.mergeEntries (written declared' []) (written declared []) =
      written declared [] := by
    apply Document.mergeEntries_of_names order first
    intro name held change found given
    rw [value?_written_nil, Option.map_eq_some_iff] at found given
    rcases found with ⟨lower, found, rfl⟩
    rcases given with ⟨upper, given, rfl⟩
    exact each name lower upper found given
  calc
    Document.mergeEntries (written declared' []) (written declared extra)
      = Document.mergeEntries (Document.mergeEntries (written declared' []) (written declared []))
          (Document.compactEntries extra) := by
        rw [written_eq declared extra, Document.mergeEntries_append]
    _ = Document.mergeEntries (written declared []) (Document.compactEntries extra) := by
        rw [replaced]
    _ = written declared extra := by
        rw [Document.mergeEntries_of_fresh unique, rest.compact.withoutNullEntries_eq,
          written_eq declared extra]

/-- Merged onto a part of the same schema that holds its fields alone, a part takes its place. -/
theorem Schema.Reads.merge_eq (reads : schema.Reads document old) (plain : old.Plain)
    (reads' : schema.Reads other new) (outspoken : new.Outspoken) (sound : schema.wellFormed = true)
    (distinct : other.Distinct) (fit : other.AllNumbers Number.Fits) :
    old.toDocument.compact.merge new.toDocument.compact = new.toDocument.compact := by
  induction reads' generalizing document old with
  | text s => exact Document.merge_leaf _ rfl rfl
  | number n =>
      have finite : n.toBinary64.isFinite = true := Number.Fits.isFinite fit
      rw [Part.toDocument, if_pos finite]
      exact Document.merge_leaf _ rfl rfl
  | @record title fields entries declared extra parts each ih =>
      cases reads with
      | @record _ _ _ declared' _ parts' each' =>
        cases plain with
        | record plains =>
          cases outspoken with
          | record voiced rest =>
            rcases wellFormed_record sound with ⟨-, fresh, below⟩
            have inner := Document.distinctEntries_iff.mp distinct.2
            have numbers := Document.allNumbersIn_iff.mp fit
            rw [Part.compact_toDocument_record, Part.compact_toDocument_record,
              Document.merge_objects]
            apply congrArg Document.object
            apply parts.mergeEntries_written parts' fresh distinct.1 rest
            intro name lower upper found given
            have listed := Entries.mem_of_value? given
            have listed' := Entries.mem_of_value? found
            rcases parts.found name upper listed with ⟨schema, value, known, here, read⟩
            rcases parts'.found name lower listed' with ⟨schema', value', known', here', read'⟩
            have present := Entries.mem_of_value? here
            have again := each' name schema' value' lower (Entries.mem_of_value? here') known' read'
            rw [known, Option.some.injEq] at known'
            subst known'
            have taken := each name schema value upper present known read
            constructor
            · exact taken.isNull_toDocument (numbers _ present)
            · exact ih name schema value upper present known read again (plains _ listed')
                (voiced _ listed) (below _ (Entries.mem_of_value? known)) (inner _ present)
                (numbers _ present)

/--
A theme serves as overrides. Created over a theme whose records hold their fields alone, it comes out
as it was, in the same order, as long as nothing that it holds beside its own fields is `null`.
-/
theorem create_of_theme (read : ofDocument document = .ok theme) (plain : theme.root.Plain)
    (read' : ofDocument other = .ok upper) (distinct : other.Distinct)
    (fit : other.AllNumbers Number.Fits) (outspoken : upper.root.Outspoken) (base : Base) :
    ∃ overrides draft again, Overrides.ofTheme upper = .ok overrides ∧
      (create overrides (some theme) base).1 = .ok draft ∧ draft.document = upper.toDocument ∧
      draft.toTheme = .ok again ∧ again.toDocument = upper.toDocument := by
  have lower := Schema.reads_of_read (ofDocument_eq_ok_iff.mp read).2
  have higher := Schema.reads_of_read (ofDocument_eq_ok_iff.mp read').2
  have same : theme.toDocument.merge upper.toDocument = upper.toDocument :=
    lower.merge_eq plain higher outspoken schema_wellFormed distinct fit
  rcases toDocument_eq_object read' with ⟨root, form⟩
  have accepted : Overrides.ofTheme upper = .ok ⟨root⟩ := by
    rw [Overrides.ofTheme, form, Overrides.ofDocument]
  have derived : (create ⟨root⟩ (some theme) base).1 = .ok ⟨upper.toDocument⟩ := by
    apply Draft.ofDocument_eq_ok_iff.mpr
    rw [Overrides.toDocument, ← form, same]
    exact ⟨ofDocument_resolved read', rfl⟩
  exact ⟨_, _, _, accepted, derived, rfl, ofDocument_toDocument read' fit,
    Part.toDocument_compact upper.root⟩

/--
Onto a blank theme, a theme with texts and numbers of its own that keeps a note beside its fields, with a
`null` in an array. Every text of the blank theme gives way.
-/
theorem create_of_theme_at_dusk : ∃ theme upper overrides draft again,
    ofDocument (blankWith []) = .ok theme ∧
    ofDocument (uniformWith "dusk" (.integer 4) [("note", .object [("seen", .array [.null])])]) =
      .ok upper ∧
    Overrides.ofTheme upper = .ok overrides ∧
    (create overrides (some theme) .unset).1 = .ok draft ∧ draft.document = upper.toDocument ∧
    draft.toTheme = .ok again ∧ again.toDocument = upper.toDocument ∧
    ∀ path, Theme.schema.at? path = some .text → theme.toDocument.at? path = some (.text "") ∧
      again.toDocument.at? path = some (.text "dusk") := by
  have unknown : ∀ entry ∈ [("note", Document.object [("seen", .array [.null])])],
      entry.1 ∉ Entries.names Theme.schema.fields := by decide
  have resolved : (Document.object [("note", .object [("seen", .array [.null])])]).Resolved :=
    Document.firstAlias?_eq_none_iff.mp (by decide)
  have quiet : (Document.object [("note", .object [("seen", .array [.null])])]).Outspoken := by
    have list : (Document.array [.null]).Outspoken := .leaf rfl
    simp [Document.outspoken_object, Document.isNull, list]
  have distinct : (uniformWith "dusk" (.integer 4)
      [("note", .object [("seen", .array [.null])])]).Distinct :=
    uniformWith_distinct unknown (by decide)
  have fit : (uniformWith "dusk" (.integer 4)
      [("note", .object [("seen", .array [.null])])]).AllNumbers Number.Fits := by
    apply uniformWith_numbers (by decide)
    simp [Document.AllNumbers, Document.AllNumbersIn, Document.AllNumbersFrom]
  rcases ofDocument_blank with ⟨fields, read⟩
  have dusk : Token.isAlias "dusk" = false := by decide
  rcases ofDocument_uniformWith dusk unknown resolved with ⟨declared, read'⟩
  have plain : (Part.record fields []).Plain := .record (plain_of_ofDocument_uniformWith read)
  have outspoken : Part.Outspoken
      (.record declared [("note", .object [("seen", .array [.null])])]) :=
    .record (fun entry listed => (plain_of_ofDocument_uniformWith read' entry listed).outspoken) quiet
  rcases create_of_theme read plain read' distinct fit outspoken .unset
    with ⟨overrides, draft, again, accepted, created, same, reread, same'⟩
  refine ⟨_, _, overrides, draft, again, read, read', accepted, created, same, reread, same', ?_⟩
  intro path leaf
  constructor
  · exact at?_toDocument_of_text read leaf (at?_uniformWith leaf)
  · rw [same']
    exact at?_toDocument_of_text read' leaf (at?_uniformWith leaf)

end DesignTokens.Theme
