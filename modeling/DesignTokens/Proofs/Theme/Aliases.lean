import DesignTokens.Proofs.Document.Texts
import DesignTokens.Proofs.Theme.Leaves
import DesignTokens.Theme.Basic

/-! Where a document on its way to a theme may hold an alias: at the text leaves and nowhere else. -/

namespace DesignTokens.Theme

open Token

variable {whole : Schema} {document : Document}

theorem Schema.Admits.at? {path : List String} {value : Document}
    (admits : whole.Admits document) (reached : document.at? path = some value) :
    ∃ schema, whole.at? path = some schema ∧ schema.Admits value := by
  induction path generalizing whole document with
  | nil =>
      cases reached
      exact ⟨whole, rfl, admits⟩
  | cons name rest ih =>
      cases admits with
      | text s => cases reached
      | number n => cases reached
      | @record title fields entries distinct declared admitted =>
          rw [Document.at?_object] at reached
          rcases Option.bind_eq_some_iff.mp reached with ⟨next, found, below⟩
          cases known : Entries.value? name fields with
          | none => exact absurd (declared _ _ found) (Entries.value?_eq_none.mp known)
          | some schema =>
              rcases ih (admitted _ _ _ found known) below with ⟨last, step, fits⟩
              exact ⟨last, by simpa [Schema.at?, known] using step, fits⟩

theorem Schema.Admits.resolved_iff (admits : whole.Admits document) : document.Resolved ↔
    ∀ path s, document.at? path = some (.text s) → isAlias s = false := by
  induction admits with
  | text s =>
      constructor
      · intro resolved path text reached
        cases path with
        | nil =>
            cases reached
            exact resolved ([], s) List.mem_cons_self
        | cons name rest => cases reached
      · intro plain held listed
        obtain rfl := List.mem_singleton.mp listed
        exact plain [] s rfl
  | number n =>
      constructor
      · intro _ path text reached
        cases path <;> cases reached
      · exact fun _ => List.forall_mem_nil _
  | @record title fields entries distinct declared admitted ih =>
      have inner : ∀ entry ∈ entries, entry.2.Resolved ↔
          ∀ path s, entry.2.at? path = some (.text s) → isAlias s = false := by
        intro entry present
        have found := Entries.value?_of_mem distinct present
        cases known : Entries.value? entry.1 fields with
        | none => exact absurd (declared _ _ found) (Entries.value?_eq_none.mp known)
        | some schema => exact ih _ _ _ found known
      rw [Document.resolved_object]
      constructor
      · intro each path s reached
        cases path with
        | nil => cases reached
        | cons name rest =>
            rw [Document.at?_object] at reached
            rcases Option.bind_eq_some_iff.mp reached with ⟨value, found, below⟩
            have present := Entries.mem_of_value? found
            exact (inner _ present).mp (each _ present) rest s below
      · intro plain entry present
        rw [inner entry present]
        intro path s reached
        apply plain (entry.1 :: path) s
        rw [Document.at?_object, Entries.value?_of_mem distinct present]
        exact reached

end DesignTokens.Theme
