import DesignTokens.Proofs.Document.Lookup
import DesignTokens.Proofs.Entries
import DesignTokens.Theme.Record

/-!
Reading by paths: what a record reads at a path is what the schema there reads in the document
there. A document whose entries are all declared is read without anything left over.
-/

namespace DesignTokens.Theme

def Part.at? : List String → Part → Option Part
  | [], part => some part
  | name :: rest, part => (part.field? name).bind (at? rest)

inductive Part.Plain : Part → Prop
  | text (value : String) : Plain (.text value)
  | number (value : Binary64) : Plain (.number value)
  | record {declared : List (String × Part)} (fields : ∀ entry ∈ declared, entry.2.Plain) :
      Plain (.record declared [])

def Schema.at? : List String → Schema → Option Schema
  | [], schema => some schema
  | name :: rest, .record _ fields => (Entries.value? name fields).bind (at? rest)
  | _ :: _, _ => none

/-- Every entry is declared and of its type, though some declared ones may be missing. -/
inductive Schema.Admits : Schema → Document → Prop
  | text (s : String) : Admits .text (.text s)
  | number (n : Number) : Admits .number (.number n)
  | record {name : String} {fields : List (String × Schema)} {entries : Entries Document}
      (distinct : (Entries.names entries).Nodup)
      (declared : ∀ key value, entries.value? key = some value → key ∈ Entries.names fields)
      (admitted : ∀ key value schema, entries.value? key = some value →
        Entries.value? key fields = some schema → Admits schema value) :
      Admits (.record name fields) (.object entries)

variable {fields : List (String × Schema)} {entries : Entries Document} {met : Entries Part}
  {extra : Entries Document} {declared : Entries Part} {name : String} {schema : Schema}
  {value : Document} {part : Part}

theorem readEntries_cons (done : readEntries fields ((name, value) :: entries) = .ok (met, extra)) :
    (Entries.value? name fields = none ∧ ∃ others,
      readEntries fields entries = .ok (met, others) ∧ extra = (name, value) :: others) ∨
    ∃ schema part more, Entries.value? name fields = some schema ∧ schema.read value = .ok part ∧
      readEntries fields entries = .ok (more, extra) ∧ met = (name, part) :: more := by
  rw [readEntries] at done
  cases known : Entries.value? name fields with
  | none =>
      cases behind : readEntries fields entries with
      | error e => simp [known, behind] at done
      | ok both =>
          simp only [known, behind, Except.ok.injEq, Prod.mk.injEq] at done
          obtain ⟨rfl, rfl⟩ := done
          exact .inl ⟨rfl, both.2, rfl, rfl⟩
  | some schema =>
      cases reads : schema.read value with
      | error e => simp [known, reads] at done
      | ok part =>
          cases behind : readEntries fields entries with
          | error e => simp [known, reads, behind] at done
          | ok both =>
              simp only [known, reads, behind, Except.ok.injEq, Prod.mk.injEq] at done
              obtain ⟨rfl, rfl⟩ := done
              exact .inr ⟨schema, part, both.1, rfl, reads, rfl, rfl⟩

theorem value?_readEntries (done : readEntries fields entries = .ok (met, extra))
    (field : Entries.value? name fields = some schema) :
    (entries.value? name = none ∧ met.value? name = none) ∨
      ∃ value part, entries.value? name = some value ∧ schema.read value = .ok part ∧
        met.value? name = some part := by
  induction entries generalizing met extra with
  | nil =>
      cases done
      exact .inl ⟨rfl, rfl⟩
  | cons head rest ih =>
      obtain ⟨key, value⟩ := head
      rcases readEntries_cons done with ⟨unknown, others, behind, -⟩ |
        ⟨expected, part, more, known, reads, behind, rfl⟩
      · have other : key ≠ name := by
          intro same
          subst same
          rw [field] at unknown
          cases unknown
        simpa [Entries.value?, other] using ih behind
      · by_cases same : key = name
        · subst same
          rw [field] at known
          cases known
          exact .inr ⟨value, part, by simp [Entries.value?], reads, by simp [Entries.value?]⟩
        · simpa [Entries.value?, same] using ih behind

theorem complete_cons (done : complete ((name, schema) :: fields) met = .ok declared) :
    ∃ part others, met.value? name = some part ∧ complete fields met = .ok others ∧
      declared = (name, part) :: others := by
  rw [complete] at done
  cases here : met.value? name with
  | none => simp [here] at done
  | some part =>
      cases behind : complete fields met with
      | error e => simp [here, behind] at done
      | ok others =>
          simp only [here, behind, Except.ok.injEq] at done
          exact ⟨part, others, rfl, rfl, done.symm⟩

theorem complete_order (done : complete fields met = .ok declared) :
    Entries.names declared = Entries.names fields := by
  induction fields generalizing declared with
  | nil =>
      cases done
      rfl
  | cons head rest ih =>
      obtain ⟨part, others, -, behind, rfl⟩ := complete_cons done
      simpa [Entries.names] using ih behind

theorem complete_met (done : complete fields met = .ok declared) (listed : (name, part) ∈ declared) :
    met.value? name = some part := by
  induction fields generalizing declared with
  | nil =>
      cases done
      cases listed
  | cons head rest ih =>
      obtain ⟨part', others, here, behind, rfl⟩ := complete_cons done
      rcases List.mem_cons.mp listed with first | later
      · cases first
        exact here
      · exact ih behind later

theorem complete_isOk (present : ∀ name ∈ Entries.names fields, ∃ part, met.value? name = some part) :
    ∃ declared, complete fields met = .ok declared := by
  induction fields with
  | nil => exact ⟨[], rfl⟩
  | cons head rest ih =>
      obtain ⟨name, schema⟩ := head
      obtain ⟨declared, behind⟩ := ih fun name listed => present name (List.mem_cons_of_mem _ listed)
      obtain ⟨part, here⟩ := present name List.mem_cons_self
      exact ⟨(name, part) :: declared, by simp [complete, here, behind]⟩

theorem value?_complete (done : complete fields met = .ok declared)
    (field : Entries.value? name fields = some schema) :
    ∃ part, met.value? name = some part ∧ declared.value? name = some part := by
  induction fields generalizing declared with
  | nil => cases field
  | cons head rest ih =>
      obtain ⟨key, expected⟩ := head
      obtain ⟨part, others, here, behind, rfl⟩ := complete_cons done
      by_cases same : key = name
      · subst same
        exact ⟨part, here, by simp [Entries.value?]⟩
      · simp only [Entries.value?, same, if_false] at field ⊢
        exact ih behind field

theorem Schema.read_record_eq_ok {title : String} {document : Document} {part : Part}
    (done : (Schema.record title fields).read document = .ok part) :
    ∃ entries met extra declared, document = .object entries ∧ part = .record declared extra ∧
      readEntries fields entries = .ok (met, extra) ∧ complete fields met = .ok declared := by
  cases document with
  | object entries =>
      rw [Schema.read] at done
      cases first : readEntries fields entries with
      | error e => simp [first] at done
      | ok both =>
          rcases both with ⟨met, extra⟩
          cases second : complete fields met with
          | error e => simp [first, second] at done
          | ok declared =>
              simp only [first, second, Except.ok.injEq] at done
              exact ⟨entries, met, extra, declared, rfl, done.symm, first, second⟩
  | _ => simp [Schema.read] at done

/-- Reading a record reads the document at each path of its schema. -/
theorem Schema.read_at {path : List String} {document : Document} {part : Part}
    {whole : Schema} (done : whole.read document = .ok part)
    (field : whole.at? path = some schema) :
    ∃ value below, document.at? path = some value ∧ part.at? path = some below ∧
      schema.read value = .ok below := by
  induction path generalizing whole document part with
  | nil =>
      cases field
      exact ⟨document, part, rfl, rfl, done⟩
  | cons name rest ih =>
      cases whole with
      | text => cases field
      | number => cases field
      | record title fields =>
          rcases Option.bind_eq_some_iff.mp field with ⟨next, here, below⟩
          rcases read_record_eq_ok done with ⟨entries, met, extra, declared, rfl, rfl, first, second⟩
          rcases value?_complete second here with ⟨child, found, listed⟩
          rcases value?_readEntries first here with ⟨_, missing⟩ |
            ⟨value, child', present, reads, found'⟩
          · simp [missing] at found
          · rw [found] at found'
            cases found'
            rcases ih reads below with ⟨last, part, reached, reached', reads'⟩
            refine ⟨last, part, ?_, ?_, reads'⟩
            · simp [Document.at?_cons, Document.field?, Document.entries?, present, reached]
            · simp [Part.at?, Part.field?, listed, reached']

theorem Schema.read_text {path : List String} {document : Document} {part : Part} {s : String}
    {whole : Schema} (done : whole.read document = .ok part) (leaf : whole.at? path = some .text)
    (held : document.at? path = some (.text s)) : part.at? path = some (.text s) := by
  rcases Schema.read_at done leaf with ⟨value, below, found, reached, reads⟩
  rw [held, Option.some.injEq] at found
  subst found
  rw [Schema.read, Except.ok.injEq] at reads
  rw [reached, reads]

theorem readEntries_of_declared
    (reads : ∀ entry ∈ entries, ∃ schema part, Entries.value? entry.1 fields = some schema ∧
      schema.read entry.2 = .ok part ∧ part.Plain) :
    ∃ met, readEntries fields entries = .ok (met, []) ∧
      Entries.names met = Entries.names entries ∧ ∀ entry ∈ met, entry.2.Plain := by
  induction entries with
  | nil => exact ⟨[], rfl, rfl, fun _ present => nomatch present⟩
  | cons head rest ih =>
      rcases head with ⟨key, value⟩
      rcases reads _ List.mem_cons_self with ⟨schema, part, known, read, plain⟩
      obtain ⟨met, behind, names, others⟩ :=
        ih fun entry present => reads entry (List.mem_cons_of_mem _ present)
      refine ⟨(key, part) :: met, ?_, ?_, List.forall_mem_cons.mpr ⟨plain, others⟩⟩
      · rw [readEntries, known]
        simp only [read, behind]
      · simpa [Entries.names] using names

theorem complete_of_met (present : ∀ name ∈ Entries.names fields, name ∈ Entries.names met)
    (plain : ∀ entry ∈ met, entry.2.Plain) :
    ∃ declared, complete fields met = .ok declared ∧ ∀ entry ∈ declared, entry.2.Plain := by
  have found : ∀ name ∈ Entries.names fields, ∃ part, met.value? name = some part := by
    intro name listed
    cases here : met.value? name with
    | none => exact absurd (present name listed) (Entries.value?_eq_none.mp here)
    | some part => exact ⟨part, rfl⟩
  obtain ⟨declared, done⟩ := complete_isOk found
  refine ⟨declared, done, ?_⟩
  intro entry listed
  exact plain _ (Entries.mem_of_value? (complete_met done listed))

end DesignTokens.Theme
