import DesignTokens.Proofs.Document.Alike
import DesignTokens.Proofs.Theme.Rereading

/-!
Themes read from documents whose entries were put in another order. Fields go by their names, so such
a document is read whenever the first one is, and the value forms differ in the order of what the
schema does not declare, and in nothing else.
-/

namespace DesignTokens.Theme

variable {document other : Document} {theme : Theme} {schema : Schema} {part : Part} {name : String}
  {fields : List (String × Schema)} {entries others : Entries Document} {declared : Entries Part}
  {extra : Entries Document}

theorem names_undeclared (fields : List (String × Schema)) (entries : Entries Document) :
    (undeclared fields entries).names =
      entries.names.filter fun name => (Entries.value? name fields).isNone := by
  rw [undeclared, Entries.names, Entries.names, List.filter_map]
  rfl

theorem value?_undeclared (unknown : Entries.value? name fields = none) (entries : Entries Document) :
    (undeclared fields entries).value? name = entries.value? name := by
  induction entries with
  | nil => rfl
  | cons entry rest ih =>
      rw [undeclared] at ih ⊢
      by_cases same : entry.1 = name
      · have kept : (Entries.value? entry.1 fields).isNone = true := by rw [same, unknown]; rfl
        rw [List.filter_cons, if_pos kept, Entries.value?, Entries.value?, if_pos same, if_pos same]
      · rw [List.filter_cons]
        split
        · rw [Entries.value?, Entries.value?, if_neg same, if_neg same, ih]
        · rw [Entries.value?, if_neg same, ih]

def written (declared : Entries Part) (extra : Entries Document) : Entries Document :=
  declared.map (fun entry => (entry.1, entry.2.toDocument.compact)) ++ Document.compactEntries extra

namespace RecordRead

variable (parts : RecordRead fields entries declared extra)

include parts

theorem names_written : (written declared extra).names =
    Entries.names fields ++ entries.names.filter fun name => (Entries.value? name fields).isNone := by
  have rest := Document.names_compactEntries (undeclared fields entries)
  rw [Entries.names] at rest
  rw [written, parts.rest, Entries.names, List.map_append, rest, names_undeclared, ← parts.order,
    List.map_map]
  rfl

theorem value?_written_of_known (distinct : (Entries.names fields).Nodup)
    (known : Entries.value? name fields = some schema) :
    ∃ value part, entries.value? name = some value ∧ schema.read value = .ok part ∧
      (written declared extra).value? name = some part.toDocument.compact := by
  have listed : name ∈ Entries.names declared :=
    parts.order ▸ Entries.mem_names_of_value? known
  obtain ⟨⟨_, part⟩, here, rfl⟩ := List.mem_map.mp listed
  obtain ⟨schema', value, known', found, read⟩ := parts.found _ part here
  rw [known, Option.some.injEq] at known'
  refine ⟨value, part, found, known' ▸ read, ?_⟩
  apply Entries.value?_append_of_some
  rw [Entries.value?_map fun part : Part => part.toDocument.compact,
    Entries.value?_of_mem (parts.order ▸ distinct) here]
  rfl

theorem value?_written_of_unknown (unknown : Entries.value? name fields = none) :
    (written declared extra).value? name = (entries.value? name).map Document.compact := by
  have absent : Entries.value? name declared = none := by
    rw [Entries.value?_eq_none, parts.order]
    exact Entries.value?_eq_none.mp unknown
  rw [written, Entries.value?_append, Entries.value?_map fun part : Part => part.toDocument.compact,
    absent, Document.value?_compactEntries, parts.rest, value?_undeclared unknown]
  rfl

theorem nodup_written (fresh : (Entries.names fields).Nodup) (distinct : entries.names.Nodup) :
    (written declared extra).names.Nodup := by
  rw [parts.names_written, List.nodup_append]
  refine ⟨fresh, distinct.filter _, ?_⟩
  rintro name listed other later rfl
  have unknown := Option.isNone_iff_eq_none.mp (List.mem_filter.mp later).2
  exact Entries.value?_eq_none.mp unknown listed

theorem written_alike {declared' : Entries Part} {extra' : Entries Document}
    (parts' : RecordRead fields others declared' extra') (fresh : (Entries.names fields).Nodup)
    (names : entries.names.Perm others.names)
    (each : ∀ name value other, entries.value? name = some value →
      others.value? name = some other → value.Alike other)
    (held : ∀ name schema value other part again, Entries.value? name fields = some schema →
      entries.value? name = some value → others.value? name = some other →
      schema.read value = .ok part → schema.read other = .ok again →
      part.toDocument.compact.Alike again.toDocument.compact) :
    (Document.object (written declared extra)).Alike (.object (written declared' extra')) := by
  refine .object ?_ ?_
  · rw [parts.names_written, parts'.names_written]
    exact (names.filter _).append_left _
  · intro name first second here there
    cases known : Entries.value? name fields with
    | none =>
        rw [parts.value?_written_of_unknown known, Option.map_eq_some_iff] at here
        rw [parts'.value?_written_of_unknown known, Option.map_eq_some_iff] at there
        obtain ⟨value, found, rfl⟩ := here
        obtain ⟨value', found', rfl⟩ := there
        exact (each name value value' found found').compact
    | some schema =>
        obtain ⟨value, part, found, read, same⟩ := parts.value?_written_of_known fresh known
        obtain ⟨value', part', found', read', same'⟩ := parts'.value?_written_of_known fresh known
        rw [same, Option.some.injEq] at here
        rw [same', Option.some.injEq] at there
        rw [← here, ← there]
        exact held name schema value value' part part' known found found' read read'

end RecordRead

theorem Schema.distinct_of_read (sound : schema.wellFormed = true) (distinct : document.Distinct)
    (done : schema.read document = .ok part) : part.toDocument.compact.Distinct := by
  have reads := reads_of_read done
  induction reads with
  | text s => trivial
  | number n =>
      rw [Part.toDocument]
      split <;> trivial
  | @record title fields entries declared extra parts each ih =>
      obtain ⟨-, fresh, below⟩ := wellFormed_record sound
      have inner := Document.distinctEntries_iff.mp distinct.2
      rw [Part.compact_toDocument_record]
      refine ⟨parts.nodup_written fresh distinct.1, ?_⟩
      rw [Document.distinctEntries_iff, List.forall_mem_append, Document.compactEntries_eq,
        List.forall_mem_map, List.forall_mem_map, parts.rest]
      constructor
      · intro entry listed
        obtain ⟨schema, value, known, found, read⟩ := parts.found entry.1 entry.2 listed
        have here := Entries.mem_of_value? found
        exact ih entry.1 schema value entry.2 here known read (below _ (Entries.mem_of_value? known))
          (inner _ here) read
      · intro entry listed
        exact (inner _ (List.mem_filter.mp listed).1).compact

/-- In whatever order entries stand, a document is read as a part of a like value form. -/
theorem Schema.read_alike (sound : schema.wellFormed = true) (distinct : document.Distinct)
    (alike : document.Alike other) (done : schema.read document = .ok part) :
    ∃ again, schema.read other = .ok again ∧
      part.toDocument.compact.Alike again.toDocument.compact := by
  induction schema using Schema.induction generalizing document other part with
  | text =>
      cases alike with
      | text s =>
          cases done
          exact ⟨.text s, by rw [Schema.read], .refl _⟩
      | _ => simp [Schema.read] at done
  | number =>
      cases alike with
      | number n =>
          rw [Schema.read] at done
          cases done
          exact ⟨_, by rw [Schema.read], .refl _⟩
      | _ => simp [Schema.read] at done
  | record title fields ih =>
      obtain ⟨-, fresh, below⟩ := wellFormed_record sound
      obtain ⟨entries, met, extra, declared, rfl, rfl, first, second⟩ := read_record_eq_ok done
      have parts := recordRead_of_ok first second
      cases alike with
      | @object _ others names each =>
          have reads : ∀ name schema value other part, Entries.value? name fields = some schema →
              Entries.value? name entries = some value → others.value? name = some other →
              schema.read value = .ok part → ∃ again, schema.read other = .ok again ∧
                part.toDocument.compact.Alike again.toDocument.compact := by
            intro name schema value other part known here there read
            have field := Entries.mem_of_value? known
            have held := Entries.mem_of_value? here
            exact ih _ field (below _ field) (Document.distinctEntries_iff.mp distinct.2 _ held)
              (each name value other here there) read
          have fits : (Schema.record title fields).Fits (.object others) := by
            refine .record ?_ ?_
            · intro name listed
              obtain ⟨⟨_, schema⟩, field, rfl⟩ := List.mem_map.mp listed
              obtain ⟨value, part, here, -, -⟩ :=
                parts.value?_written_of_known fresh (Entries.value?_of_mem fresh field)
              exact names.mem_iff.mp (Entries.mem_names_of_value? here)
            · intro name other schema listed known
              have there := Entries.value?_of_mem (names.nodup_iff.mp distinct.1) listed
              obtain ⟨value, part, here, read, -⟩ := parts.value?_written_of_known fresh known
              obtain ⟨again, read', -⟩ := reads name schema value other part known here there read
              exact Schema.read_isOk_iff.mp ⟨again, read'⟩
          obtain ⟨again, read⟩ := fits.read
          cases reads_of_read read with
          | record parts' _ =>
              refine ⟨_, read, ?_⟩
              rw [Part.compact_toDocument_record, Part.compact_toDocument_record]
              apply parts.written_alike parts' fresh names each
              intro name schema value other part again known here there read read'
              obtain ⟨again', same, alike⟩ := reads name schema value other part known here there read
              rw [read', Except.ok.injEq] at same
              exact same ▸ alike

theorem Schema.holds_of_read {holds : Document → Prop} (text : ∀ s, holds (.text s))
    (number : ∀ n, holds (.number n) → holds (Part.number n.toBinary64).toDocument.compact)
    (object : ∀ entries, holds (.object entries) ↔ ∀ entry ∈ entries, holds entry.2)
    (compact : ∀ document, holds document → holds document.compact)
    (all : holds document) (done : schema.read document = .ok part) :
    holds part.toDocument.compact := by
  have reads := reads_of_read done
  induction reads with
  | text s => exact text s
  | number n => exact number n all
  | @record title fields entries declared extra parts each ih =>
      have inner := (object entries).mp all
      rw [Part.compact_toDocument_record, object, List.forall_mem_append, Document.compactEntries_eq,
        List.forall_mem_map, List.forall_mem_map, parts.rest]
      constructor
      · intro entry listed
        obtain ⟨schema, value, known, found, read⟩ := parts.found entry.1 entry.2 listed
        have here := Entries.mem_of_value? found
        exact ih entry.1 schema value entry.2 here known read (inner _ here) read
      · intro entry listed
        exact compact _ (inner _ (List.mem_filter.mp listed).1)

theorem distinct_of_ofDocument (distinct : document.Distinct)
    (read : ofDocument document = .ok theme) : theme.toDocument.Distinct :=
  Schema.distinct_of_read schema_wellFormed distinct (ofDocument_eq_ok_iff.mp read).2

theorem fit_of_ofDocument (fit : document.AllNumbers Number.Fits)
    (read : ofDocument document = .ok theme) : theme.toDocument.AllNumbers Number.Fits := by
  refine Schema.holds_of_read (fun s => trivial) (fun n fits => ?_) (fun entries => ?_)
    (fun _ => Document.fit_compact) fit (ofDocument_eq_ok_iff.mp read).2
  · rw [Part.toDocument, if_pos (Number.Fits.isFinite fits)]
    exact Number.fits_ofBinary64 (Number.Fits.isFinite fits)
  · exact Document.allNumbersIn_iff

theorem ofDocument_of_alike (read : ofDocument document = .ok theme) (distinct : document.Distinct)
    (fit : document.AllNumbers Number.Fits) (alike : theme.toDocument.Alike other) :
    ∃ again, ofDocument other = .ok again ∧ theme.toDocument.Alike again.toDocument := by
  have distinct' := distinct_of_ofDocument distinct read
  obtain ⟨resolved, reread⟩ := ofDocument_eq_ok_iff.mp (ofDocument_toDocument read fit)
  obtain ⟨root, done, same⟩ := Schema.read_alike schema_wellFormed distinct' alike reread
  rw [Part.toDocument_compact] at same
  exact ⟨⟨root⟩, ofDocument_eq_ok_iff.mpr ⟨alike.resolved distinct' resolved, done⟩, same⟩

end DesignTokens.Theme
