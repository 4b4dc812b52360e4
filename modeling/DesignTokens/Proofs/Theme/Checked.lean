import DesignTokens.Proofs.Document.Texts
import DesignTokens.Proofs.Theme.Shape
import DesignTokens.Theme.Draft

/-!
The check for aliases in front of themes and drafts. It searches with one trail of names and passes
exactly the documents without an alias, and what is read from such a document has no text that was not
there.
-/

namespace DesignTokens.Theme

open Token

variable {document : Document} {theme : Theme} {draft : Draft} {e : ThemeError} {schema : Schema}
  {part : Part}

def Reported (document : Document) (e : ThemeError) : Prop :=
  ∃ place s, (place, s) ∈ document.texts ∧ isAlias s = true ∧
    e = .unresolvedAlias (Text.join '.' place) s

def searched (trail : List String) : Option (List String × String) → Except ThemeError Unit × List String
  | none => (.ok (), trail)
  | some (place, s) =>
      (.error (.unresolvedAlias (Text.join '.' (trail ++ place)) s), trail ++ place)

theorem searched_deeper (trail : List String) (name : String) (place : List String) (s : String) :
    searched (trail ++ [name]) (some (place, s)) = searched trail (some (name :: place, s)) := by
  simp [searched]

mutual

/-- A search that finds nothing takes every name off the trail again that it has put there. -/
theorem findAlias_eq (trail : List String) : (document : Document) →
    findAlias trail document = searched trail (firstAlias? document)
  | .text s => by
      rw [findAlias, firstAlias?]
      split <;> simp [searched]
  | .array items => by rw [findAlias, firstAlias?, findAliasFrom_eq]
  | .object entries => by rw [findAlias, firstAlias?, findAliasIn_eq]
  | .null => by rw [findAlias, firstAlias?] <;> simp [searched]
  | .bool _ => by rw [findAlias, firstAlias?] <;> simp [searched]
  | .number _ => by rw [findAlias, firstAlias?] <;> simp [searched]

theorem findAliasFrom_eq (trail : List String) (index : Nat) : (items : List Document) →
    findAliasFrom trail index items = searched trail (firstAliasFrom? index items)
  | [] => rfl
  | item :: rest => by
      rw [findAliasFrom, firstAliasFrom?, findAlias_eq _ item]
      cases firstAlias? item with
      | none =>
          simp only [searched, List.dropLast_concat]
          exact findAliasFrom_eq trail (index + 1) rest
      | some found => rw [searched_deeper, searched]

theorem findAliasIn_eq (trail : List String) : (entries : List (String × Document)) →
    findAliasIn trail entries = searched trail (firstAliasIn? entries)
  | [] => rfl
  | (name, value) :: rest => by
      rw [findAliasIn, firstAliasIn?, findAlias_eq _ value]
      cases firstAlias? value with
      | none =>
          simp only [searched, List.dropLast_concat]
          exact findAliasIn_eq trail rest
      | some found => rw [searched_deeper, searched]

end

theorem checkResolved_eq (document : Document) :
    checkResolved document = (searched [] (firstAlias? document)).1 := by
  rw [checkResolved, findAlias_eq]

theorem checkResolved_eq_ok_iff : checkResolved document = .ok () ↔ document.Resolved := by
  rw [← Document.firstAlias?_eq_none_iff, checkResolved_eq]
  cases firstAlias? document <;> simp [searched]

theorem checkResolved_eq_error (failed : checkResolved document = .error e) :
    Reported document e := by
  rw [checkResolved_eq] at failed
  cases found : firstAlias? document with
  | none => simp [found, searched] at failed
  | some both =>
      obtain ⟨place, s⟩ := both
      simp only [found, searched, List.nil_append, Except.error.injEq] at failed
      obtain ⟨held, named⟩ := Document.mem_texts_of_firstAlias? found
      exact ⟨place, s, held, named, failed.symm⟩

theorem ofDocument_eq_ok_iff : ofDocument document = .ok theme ↔
    document.Resolved ∧ Theme.schema.read document = .ok theme.root := by
  rw [← checkResolved_eq_ok_iff, ofDocument]
  cases checkResolved document with
  | error e => simp
  | ok _ =>
      cases Theme.schema.read document with
      | error cause => simp
      | ok root =>
          simp only [Except.ok.injEq, true_and]
          constructor
          · intro same
            rw [← same]
          · intro same
            rw [same]

/-- A document with an alias is refused for it, whatever else is wrong. -/
theorem ofDocument_of_alias (unresolved : ¬ document.Resolved) :
    ∃ e, ofDocument document = .error e ∧ Reported document e := by
  cases check : checkResolved document with
  | ok _ => exact absurd (checkResolved_eq_ok_iff.mp check) unresolved
  | error e => exact ⟨e, by rw [ofDocument, check], checkResolved_eq_error check⟩

theorem ofDocument_of_resolved (resolved : document.Resolved) :
    ofDocument document = match Theme.schema.read document with
      | .error cause => .error (.shape cause)
      | .ok root => .ok ⟨root⟩ := by
  have passed := checkResolved_eq_ok_iff.mpr resolved
  cases read : Theme.schema.read document <;> simp only [ofDocument, passed, read]

theorem Draft.ofDocument_eq_ok_iff : Draft.ofDocument document = .ok draft ↔
    document.Resolved ∧ draft.document = document := by
  rw [← checkResolved_eq_ok_iff, Draft.ofDocument]
  cases checkResolved document with
  | error e => simp
  | ok _ =>
      simp only [Except.ok.injEq, true_and]
      constructor
      · intro same
        rw [← same]
      · intro same
        rw [← same]

theorem Draft.ofDocument_eq_error_iff :
    (∃ e, Draft.ofDocument document = .error e) ↔ ¬ document.Resolved := by
  rw [← checkResolved_eq_ok_iff, Draft.ofDocument]
  cases checkResolved document <;> simp

theorem Draft.reported (failed : Draft.ofDocument document = .error e) : Reported document e := by
  rw [Draft.ofDocument] at failed
  cases check : checkResolved document with
  | error e' =>
      simp only [check, Except.error.injEq] at failed
      exact failed ▸ checkResolved_eq_error check
  | ok _ => simp [check] at failed

theorem declaredToDocuments_eq (declared : Entries Part) :
    Part.declaredToDocuments declared =
      declared.map fun entry => (entry.1, entry.2.toDocument) := by
  induction declared with
  | nil => rfl
  | cons head rest ih => rw [Part.declaredToDocuments, ih, List.map_cons]

theorem RecordRead.of_mem_toDocument {fields : List (String × Schema)} {entries : Entries Document}
    {declared : Entries Part} {extra : Entries Document}
    (parts : RecordRead fields entries declared extra) {name : String} {value : Document}
    (present : (name, value) ∈ Part.declaredToDocuments declared ++ extra) :
    (name, value) ∈ entries ∨ ∃ schema old part, Entries.value? name fields = some schema ∧
      (name, old) ∈ entries ∧ schema.read old = .ok part ∧ value = part.toDocument := by
  rw [declaredToDocuments_eq, parts.rest] at present
  rcases List.mem_append.mp present with first | rest
  · obtain ⟨⟨_, part⟩, listed, same⟩ := List.mem_map.mp first
    cases same
    obtain ⟨schema, old, known, found, reads⟩ := parts.found _ _ listed
    exact .inr ⟨schema, old, part, known, Entries.mem_of_value? found, reads, rfl⟩
  · exact .inl (List.mem_filter.mp rest).1

theorem Schema.Reads.mem_texts {place : List String} {s : String}
    (reads : schema.Reads document part) (held : (place, s) ∈ part.toDocument.texts) :
    (place, s) ∈ document.texts := by
  induction reads generalizing place with
  | text s => exact held
  | number n =>
      simp only [Part.toDocument] at held
      split at held <;> simp [Document.texts] at held
  | @record title fields entries declared extra parts each ih =>
      cases place with
      | nil => exact absurd held Document.nil_mem_texts_object
      | cons name rest =>
          rw [Part.toDocument, Document.mem_texts_object] at held
          obtain ⟨value, present, inside⟩ := held
          rw [Document.mem_texts_object]
          rcases parts.of_mem_toDocument present with kept |
            ⟨schema, old, part, known, listed, read, rfl⟩
          · exact ⟨value, kept, inside⟩
          · exact ⟨old, listed, ih name schema old part listed known read inside⟩

theorem ofDocument_resolved (done : ofDocument document = .ok theme) :
    theme.toDocument.Resolved := by
  obtain ⟨resolved, read⟩ := ofDocument_eq_ok_iff.mp done
  intro held listed
  rw [toDocument, Document.texts_compact] at listed
  exact resolved held ((Schema.reads_of_read read).mem_texts listed)

end DesignTokens.Theme
