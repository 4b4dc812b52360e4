import DesignTokens.Proofs.Document.Layers
import DesignTokens.Proofs.Document.Setting
import DesignTokens.Proofs.Theme.Deriving
import DesignTokens.Proofs.Theme.Overlaps

/-!
Overrides that are set path by path. Each setting writes at its own path and nowhere else, and what
comes of any run of them can be merged onto a theme.
-/

namespace DesignTokens.Theme

variable {overrides : Overrides} {document : Document} {theme : Theme}

def Overrides.setAll (overrides : Overrides) (settings : List (String × Document)) : Overrides :=
  settings.foldl (fun overrides setting => overrides.set setting.1 setting.2) overrides

theorem Overrides.distinct_set {value : Document} (distinct : overrides.toDocument.Distinct)
    (given : value.Distinct) (path : String) : (overrides.set path value).toDocument.Distinct :=
  Document.distinct_set given distinct

theorem Overrides.distinct_setAll {settings : List (String × Document)}
    (distinct : overrides.toDocument.Distinct)
    (given : ∀ setting ∈ settings, setting.2.Distinct) :
    (overrides.setAll settings).toDocument.Distinct := by
  induction settings generalizing overrides with
  | nil => exact distinct
  | cons setting rest ih =>
      rcases List.forall_mem_cons.mp given with ⟨first, later⟩
      exact ih (distinct_set distinct first setting.1) later

theorem create_cases (read : ofDocument document = .ok theme)
    (distinct : overrides.toDocument.Distinct) (base : Base) :
    ∃ root, theme.toDocument.merge overrides.toDocument = .object root ∧
      (overrides.toDocument.Resolved →
        (create overrides (some theme) base).1 = .ok ⟨.object root⟩) ∧
      (¬ overrides.toDocument.Resolved →
        ∃ e, (create overrides (some theme) base).1 = .error e ∧ Reported overrides.toDocument e) := by
  have resolved := ofDocument_resolved read
  have merged : theme.toDocument.merge overrides.toDocument = _ :=
    Document.merge_object theme.toDocument distinct.names_nodup
  have passes := resolved_merge_iff resolved distinct
  refine ⟨_, merged, ?_, ?_⟩
  · intro plain
    exact Draft.ofDocument_eq_ok_iff.mpr ⟨passes.mpr plain, merged.symm⟩
  · intro aliased
    rcases Draft.ofDocument_eq_error_iff.mpr (mt passes.mp aliased) with ⟨e, failed⟩
    exact ⟨e, failed, reported_of_derive resolved distinct failed⟩

/--
A value that was set stands at its path. What stands at paths that lead elsewhere stays as it was, and
two such settings may be made in either order. A later setting at the same path or above it makes the
earlier one void. Whatever was set, merging it onto a theme gives an object, and creating a theme from
it only fails for an alias that it holds.
-/
theorem Overrides.set_spec (overrides : Overrides) (distinct : overrides.toDocument.Distinct)
    (path other : String) (value later : Document) :
    (overrides.set path value).toDocument.at? (Text.split '.' path) = some value ∧
    (Apart (Text.split '.' path) (Text.split '.' other) →
      (overrides.set path value).toDocument.at? (Text.split '.' other) =
        overrides.toDocument.at? (Text.split '.' other) ∧
      ((overrides.set path value).set other later).toDocument.Alike
        ((overrides.set other later).set path value).toDocument) ∧
    (Text.split '.' other <+: Text.split '.' path →
      (overrides.set path value).set other later = overrides.set other later) ∧
    ∀ settings : List (String × Document), (∀ setting ∈ settings, setting.2.Distinct) →
      ∀ document theme base, Theme.ofDocument document = .ok theme →
        ∃ root, theme.toDocument.merge (overrides.setAll settings).toDocument = .object root ∧
          ((overrides.setAll settings).toDocument.Resolved →
            (create (overrides.setAll settings) (some theme) base).1 = .ok ⟨.object root⟩) ∧
          (¬ (overrides.setAll settings).toDocument.Resolved →
            ∃ e, (create (overrides.setAll settings) (some theme) base).1 = .error e ∧
              Reported (overrides.setAll settings).toDocument e) := by
  refine ⟨?_, ?_, ?_, ?_⟩
  · exact Document.at?_set (Text.split_ne_nil '.' path) value overrides.root
  · intro apart
    have parted := Document.parted_of_not_start apart.1 apart.2
    constructor
    · exact Document.at?_set_of_parted parted value overrides.root
    · exact Document.alike_set_set parted distinct
  · intro starts
    exact congrArg Overrides.mk (Document.set_set_of_prefix starts (Text.split_ne_nil '.' other))
  · intro settings given document theme base read
    exact create_cases read (distinct_setAll distinct given) base

def inkOverrides : Overrides := ⟨[("ink", .text "#000000")]⟩

/-- The text gives way to an object; a text that is set above the two shades removes it again. -/
theorem Overrides.set_ink :
    (inkOverrides.set "ink.dark" (.text "#111111")).toDocument =
      .object [("ink", .object [("dark", .text "#111111")])] ∧
    (inkOverrides.set "ink.dark" (.text "#111111")).toDocument.at? ["ink", "dark"] =
      some (.text "#111111") ∧
    (inkOverrides.set "ink.dark" (.text "#111111")).toDocument.at? ["ink", "light"] = none ∧
    ((inkOverrides.set "ink.dark" (.text "#111111")).set "ink.light" (.text "#222222")).toDocument.Alike
      ((inkOverrides.set "ink.light" (.text "#222222")).set "ink.dark" (.text "#111111")).toDocument ∧
    (inkOverrides.set "ink.dark" (.text "#111111")).set "ink" .null = inkOverrides.set "ink" .null ∧
    ∃ theme root, Theme.ofDocument (blankWith []) = .ok theme ∧
      theme.toDocument.merge (inkOverrides.set "ink.dark" (.text "#111111")).toDocument = .object root ∧
      (create (inkOverrides.set "ink.dark" (.text "#111111")) (some theme) .unset).1 =
        .ok ⟨.object root⟩ := by
  have distinct : inkOverrides.toDocument.Distinct := by decide
  have dark : Text.split '.' "ink.dark" = ["ink", "dark"] := by decide +kernel
  have light : Text.split '.' "ink.light" = ["ink", "light"] := by decide +kernel
  have ink : Text.split '.' "ink" = ["ink"] := by decide +kernel
  have shade : (inkOverrides.set "ink.dark" (.text "#111111")).toDocument =
      .object [("ink", .object [("dark", .text "#111111")])] := by
    rw [set, dark]
    rfl
  rcases set_spec inkOverrides distinct "ink.dark" "ink.light" (.text "#111111") (.text "#222222")
    with ⟨there, elsewhere, -, merges⟩
  rcases set_spec inkOverrides distinct "ink.dark" "ink" (.text "#111111") .null
    with ⟨-, -, void, -⟩
  rw [dark] at there void
  rw [dark, light] at elsewhere
  rw [ink] at void
  rcases elsewhere (by simp [Apart]) with ⟨kept, alike⟩
  rcases ofDocument_blank with ⟨declared, read⟩
  have one : ∀ setting ∈ [("ink.dark", Document.text "#111111")], setting.2.Distinct := by decide
  have plain : (inkOverrides.set "ink.dark" (.text "#111111")).toDocument.Resolved := by
    rw [shade]
    exact Document.firstAlias?_eq_none_iff.mp (by decide +kernel)
  rcases merges _ one _ _ .unset read with ⟨root, merged, passes, -⟩
  exact ⟨shade, there, kept, alike, void (by simp), _, root, read, merged, passes plain⟩

end DesignTokens.Theme
