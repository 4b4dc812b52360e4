import DesignTokens.Proofs.Document.Induction
import DesignTokens.Proofs.Theme.Leaves

/-!
Which documents a schema reads, and how: declared fields in the order of the schema, the rest kept
as it stands. `Reads` takes reading apart record by record, for proofs by induction.
-/

namespace DesignTokens.Theme

/-- Every declared field is there, and what stands under a declared name has its type. -/
inductive Schema.Fits : Schema → Document → Prop
  | text (s : String) : Fits .text (.text s)
  | number (n : Number) : Fits .number (.number n)
  | record {title : String} {fields : List (String × Schema)} {entries : Entries Document}
      (present : ∀ name ∈ Entries.names fields, name ∈ Entries.names entries)
      (typed : ∀ name value schema, (name, value) ∈ entries →
        Entries.value? name fields = some schema → Fits schema value) :
      Fits (.record title fields) (.object entries)

def undeclared (fields : List (String × Schema)) (entries : Entries Document) : Entries Document :=
  entries.filter fun entry => (Entries.value? entry.1 fields).isNone

variable {title name : String} {fields : List (String × Schema)} {entries : Entries Document}
  {met declared : Entries Part} {extra : Entries Document} {schema : Schema} {value : Document}
  {part : Part}

structure RecordRead (fields : List (String × Schema)) (entries : Entries Document)
    (declared : Entries Part) (extra : Entries Document) : Prop where
  order : Entries.names declared = Entries.names fields
  rest : extra = undeclared fields entries
  typed : ∀ name value schema, (name, value) ∈ entries →
    Entries.value? name fields = some schema → ∃ part, schema.read value = .ok part
  found : ∀ name part, (name, part) ∈ declared → ∃ schema value,
    Entries.value? name fields = some schema ∧ entries.value? name = some value ∧
      schema.read value = .ok part

/-- How a schema reads a document as a part. -/
inductive Schema.Reads : Schema → Document → Part → Prop
  | text (s : String) : Reads .text (.text s) (.text s)
  | number (n : Number) : Reads .number (.number n) (.number n.toBinary64)
  | record {title : String} {fields : List (String × Schema)} {entries : Entries Document}
      {declared : Entries Part} {extra : Entries Document}
      (parts : RecordRead fields entries declared extra)
      (each : ∀ name schema value part, (name, value) ∈ entries →
        Entries.value? name fields = some schema → schema.read value = .ok part →
        Reads schema value part) :
      Reads (.record title fields) (.object entries) (.record declared extra)

theorem readEntries_rest (done : readEntries fields entries = .ok (met, extra)) :
    extra = undeclared fields entries := by
  induction entries generalizing met extra with
  | nil =>
      cases done
      rfl
  | cons head rest ih =>
      obtain ⟨name, value⟩ := head
      rcases readEntries_cons done with ⟨unknown, others, behind, rfl⟩ |
        ⟨schema, part, more, known, -, behind, -⟩
      · simp [undeclared, unknown, ih behind]
      · simp [undeclared, known, ih behind]

theorem readEntries_typed (done : readEntries fields entries = .ok (met, extra))
    (listed : (name, value) ∈ entries) (known : Entries.value? name fields = some schema) :
    ∃ part, schema.read value = .ok part := by
  induction entries generalizing met extra with
  | nil => cases listed
  | cons head rest ih =>
      obtain ⟨first, top⟩ := head
      rcases readEntries_cons done with ⟨unknown, others, behind, -⟩ |
        ⟨schema', part, more, known', reads, behind, -⟩
      · rcases List.mem_cons.mp listed with here | later
        · cases here
          rw [known] at unknown
          cases unknown
        · exact ih behind later
      · rcases List.mem_cons.mp listed with here | later
        · cases here
          rw [known] at known'
          cases known'
          exact ⟨part, reads⟩
        · exact ih behind later

theorem readEntries_declared (done : readEntries fields entries = .ok (met, extra))
    (listed : (name, part) ∈ met) : ∃ schema, Entries.value? name fields = some schema := by
  induction entries generalizing met extra with
  | nil =>
      cases done
      cases listed
  | cons head rest ih =>
      obtain ⟨first, top⟩ := head
      rcases readEntries_cons done with ⟨-, others, behind, -⟩ |
        ⟨schema, part', more, known, -, behind, rfl⟩
      · exact ih behind listed
      · rcases List.mem_cons.mp listed with here | later
        · cases here
          exact ⟨schema, known⟩
        · exact ih behind later

theorem recordRead_of_ok (first : readEntries fields entries = .ok (met, extra))
    (second : complete fields met = .ok declared) : RecordRead fields entries declared extra where
  order := complete_order second
  rest := readEntries_rest first
  typed := fun _ _ _ listed known => readEntries_typed first listed known
  found := by
    intro name part listed
    have here := complete_met second listed
    obtain ⟨schema, known⟩ := readEntries_declared first (Entries.mem_of_value? here)
    rcases value?_readEntries first known with ⟨-, missing⟩ | ⟨value, part', present, reads, here'⟩
    · rw [here] at missing
      cases missing
    · rw [here] at here'
      cases here'
      exact ⟨schema, value, known, present, reads⟩

theorem Schema.reads_of_read (done : schema.read value = .ok part) : schema.Reads value part := by
  induction value using Document.induction generalizing schema part with
  | object entries ih =>
      cases schema with
      | text => simp [Schema.read] at done
      | number => simp [Schema.read] at done
      | record title fields =>
          obtain ⟨_, met, extra, declared, same, rfl, first, second⟩ := read_record_eq_ok done
          cases same
          exact .record (recordRead_of_ok first second)
            fun name schema value part listed _ reads => ih (name, value) listed reads
  | text s =>
      cases schema with
      | text =>
          simp only [Schema.read, Except.ok.injEq] at done
          exact done ▸ .text s
      | _ => simp [Schema.read] at done
  | number n =>
      cases schema with
      | number =>
          simp only [Schema.read, Except.ok.injEq] at done
          exact done ▸ .number n
      | _ => simp [Schema.read] at done
  | _ => cases schema <;> simp [Schema.read] at done

theorem readEntries_isOk (reads : ∀ name value schema, (name, value) ∈ entries →
    Entries.value? name fields = some schema → ∃ part, schema.read value = .ok part) :
    ∃ met extra, readEntries fields entries = .ok (met, extra) := by
  induction entries with
  | nil => exact ⟨[], [], rfl⟩
  | cons head rest ih =>
      obtain ⟨name, value⟩ := head
      obtain ⟨met, extra, behind⟩ := ih fun name value schema listed known =>
        reads name value schema (List.mem_cons_of_mem _ listed) known
      cases known : Entries.value? name fields with
      | none => exact ⟨met, (name, value) :: extra, by simp [readEntries, known, behind]⟩
      | some schema =>
          obtain ⟨part, read⟩ := reads name value schema List.mem_cons_self known
          exact ⟨(name, part) :: met, extra, by simp [readEntries, known, read, behind]⟩

theorem Schema.Fits.read (fits : schema.Fits value) : ∃ part, schema.read value = .ok part := by
  induction fits with
  | text s => exact ⟨.text s, by simp [Schema.read]⟩
  | number n => exact ⟨.number n.toBinary64, by simp [Schema.read]⟩
  | @record title fields entries present typed ih =>
      obtain ⟨met, extra, first⟩ := readEntries_isOk ih
      have all : ∀ name ∈ Entries.names fields, ∃ part, met.value? name = some part := by
        intro name listed
        cases known : Entries.value? name fields with
        | none => exact absurd listed (Entries.value?_eq_none.mp known)
        | some schema =>
            rcases value?_readEntries first known with ⟨missing, -⟩ | ⟨_, part, -, -, here⟩
            · exact absurd (present name listed) (Entries.value?_eq_none.mp missing)
            · exact ⟨part, here⟩
      obtain ⟨declared, second⟩ := complete_isOk all
      exact ⟨.record declared extra, by simp [Schema.read, first, second]⟩

theorem Schema.Reads.fits (reads : schema.Reads value part) : schema.Fits value := by
  induction reads with
  | text s => exact .text s
  | number n => exact .number n
  | @record title fields entries declared extra parts each ih =>
      refine .record ?_ ?_
      · intro name listed
        rw [← parts.order] at listed
        obtain ⟨⟨_, part⟩, here, rfl⟩ := List.mem_map.mp listed
        obtain ⟨-, value, -, present, -⟩ := parts.found _ part here
        exact Entries.mem_names_of_value? present
      · intro name value schema listed known
        obtain ⟨part, read⟩ := parts.typed name value schema listed known
        exact ih name schema value part listed known read

theorem Schema.read_isOk_iff : (∃ part, schema.read value = .ok part) ↔ schema.Fits value :=
  ⟨fun read => (reads_of_read read.choose_spec).fits, Schema.Fits.read⟩

theorem Schema.Fits.put (fits : (Schema.record title fields).Fits (.object entries))
    (known : Entries.value? name fields = some schema) (given : schema.Fits value) :
    (Schema.record title fields).Fits (.object (entries.put name value)) := by
  cases fits with
  | record present typed =>
      refine .record ?_ ?_
      · intro key listed
        have there := present key listed
        rw [Entries.names_put]
        split
        · exact there
        · exact List.mem_append_left _ there
      · intro key held other listed asked
        rcases Entries.of_mem_put listed with ⟨rfl, rfl⟩ | old
        · rw [known, Option.some.injEq] at asked
          exact asked ▸ given
        · exact typed key held other old asked

end DesignTokens.Theme
