import DesignTokens.Document.Basic

/-! Values reached by names, through objects only. -/

namespace DesignTokens.Document

theorem at?_cons (name : String) (rest : List String) (document : Document) :
    document.at? (name :: rest) = (document.field? name).bind (at? rest) := rfl

theorem at?_object (name : String) (rest : List String) (entries : Entries Document) :
    (object entries).at? (name :: rest) = (entries.value? name).bind (at? rest) := rfl

theorem at?_of_field {name : String} {document value : Document}
    (step : document.field? name = some value) (rest : List String) :
    document.at? (name :: rest) = value.at? rest := by
  rw [at?_cons, step]
  rfl

theorem at?_append (first second : List String) (document : Document) :
    document.at? (first ++ second) = (document.at? first).bind (at? second) := by
  induction first generalizing document with
  | nil => rfl
  | cons name rest ih =>
      simp only [List.cons_append, at?_cons, Option.bind_assoc]
      congr 1
      funext next
      exact ih next

theorem at?_singleton (name : String) (document : Document) :
    document.at? [name] = document.field? name := by
  simp [at?]

theorem field?_eq_some {name : String} {document value : Document}
    (found : document.field? name = some value) :
    ∃ entries, document = .object entries ∧ Entries.value? name entries = some value := by
  cases document with
  | object entries => exact ⟨entries, rfl, found⟩
  | _ => simp [field?, entries?] at found

theorem eq_object {value : Document} {entries : Entries Document}
    (opened : value.entries? = some entries) : value = .object entries := by
  cases value <;> simp [entries?] at opened
  rw [opened]

end DesignTokens.Document
