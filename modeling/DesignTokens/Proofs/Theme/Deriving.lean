import DesignTokens.Proofs.Document.Compaction
import DesignTokens.Proofs.Theme.Agreement
import DesignTokens.Proofs.Theme.Uniform
import DesignTokens.Proofs.Theme.Checked
import DesignTokens.Theme.Base

/-!
Deriving a theme from another. Only an alias among the overrides is refused, and a field that the
overrides leave alone keeps the value that it has in the theme.
-/

namespace DesignTokens.Document

/-- The changes leave a path alone: nothing or `null` stands there, and no leaf above it. -/
structure Silent (changes : Document) (path : List String) : Prop where
  here : changes.at? path = none ∨ changes.at? path = some .null
  above : ∀ i < path.length, ∀ value, changes.at? (path.take i) = some value →
    value = .null ∨ ∃ entries, value = .object entries

theorem Silent.below {name : String} {rest : List String} {edits : Entries Document}
    {change : Document} (silent : (object edits).Silent (name :: rest))
    (given : Entries.value? name edits = some change) : change.Silent rest := by
  have step (path : List String) : (object edits).at? (name :: path) = change.at? path := by
    rw [at?_object, given]
    rfl
  refine ⟨?_, ?_⟩
  · rw [← step]
    exact silent.here
  · intro i inside value reached
    have there : (object edits).at? ((name :: rest).take (i + 1)) = some value := by
      rw [List.take_succ_cons, step, reached]
    exact silent.above (i + 1) (Nat.succ_lt_succ inside) value there

theorem at?_merge_of_silent {base changes value : Document} {path : List String}
    (distinct : changes.Distinct) (silent : changes.Silent path)
    (held : base.at? path = some value) : (merge base changes).at? path = some value := by
  induction path generalizing base changes with
  | nil =>
      rcases silent.here with none | null
      · cases none
      · cases null
        rwa [merge_null]
  | cons name rest ih =>
      rcases silent.above 0 (Nat.zero_lt_succ _) changes rfl with rfl | ⟨edits, rfl⟩
      · rwa [merge_null]
      · obtain ⟨inner, step, below⟩ := Option.bind_eq_some_iff.mp held
        obtain ⟨entries, rfl, named⟩ := field?_eq_some step
        rw [merge_objects, at?_object]
        -- Only a change that says something is merged further down; all others keep the entry.
        cases given : Entries.value? name edits with
        | none =>
            rw [value?_mergeEntries_of_silent distinct.names_nodup (.inl given), named]
            exact below
        | some change =>
            cases quiet : change.isNull with
            | true =>
                obtain rfl := eq_null quiet
                rw [value?_mergeEntries_of_silent distinct.names_nodup (.inr given), named]
                exact below
            | false =>
                rw [value?_mergeEntries_of_spoken distinct.names_nodup given quiet, named]
                exact ih (distinct.field given) (silent.below given) below

end DesignTokens.Document

namespace DesignTokens.Theme

open Token

variable {document : Document} {theme : Theme} {overrides : Overrides} {draft : Draft}

theorem Part.at?_toDocument {path : List String} {part below : Part}
    (reached : part.at? path = some below) : part.toDocument.at? path = some below.toDocument := by
  induction path generalizing part with
  | nil =>
      cases reached
      rfl
  | cons name rest ih =>
      obtain ⟨next, step, inside⟩ := Option.bind_eq_some_iff.mp reached
      cases part with
      | record declared extra =>
          have found : Entries.value? name (declaredToDocuments declared) = some next.toDocument := by
            rw [declaredToDocuments_eq, Entries.value?_map toDocument]
            exact Option.map_eq_some_iff.mpr ⟨next, step, rfl⟩
          rw [toDocument, Document.at?_object, Entries.value?_append_of_some extra found]
          exact ih inside
      | _ => cases step

theorem exists_at?_toDocument {path : List String} {kind : Kind}
    (read : ofDocument document = .ok theme) (leaf : schema.at? path = some (.ofKind kind)) :
    ∃ value, theme.toDocument.at? path = some value := by
  have done := (ofDocument_eq_ok_iff.mp read).2
  obtain ⟨-, below, -, reached, -⟩ := Schema.read_at done leaf
  rw [toDocument, Document.at?_compact, Part.at?_toDocument reached]
  exact ⟨_, rfl⟩

theorem at?_toDocument_of_text {path : List String} {s : String}
    (read : ofDocument document = .ok theme) (leaf : schema.at? path = some .text)
    (held : document.at? path = some (.text s)) :
    theme.toDocument.at? path = some (.text s) := by
  have here := Schema.read_text (ofDocument_eq_ok_iff.mp read).2 leaf held
  rw [toDocument, Document.at?_compact, Part.at?_toDocument here]
  rfl

theorem resolved_merge_iff (resolved : theme.toDocument.Resolved)
    (distinct : overrides.toDocument.Distinct) :
    (theme.toDocument.merge overrides.toDocument).Resolved ↔ overrides.toDocument.Resolved := by
  constructor
  · intro merged held listed
    exact merged held (Document.mem_texts_merge distinct listed)
  · intro plain held listed
    rcases Document.of_mem_texts_merge distinct listed with old | new
    · exact resolved held old
    · exact plain held new

theorem reported_of_derive {e : ThemeError} (resolved : theme.toDocument.Resolved)
    (distinct : overrides.toDocument.Distinct) (failed : theme.derive overrides = .error e) :
    Reported overrides.toDocument e := by
  obtain ⟨place, s, held, named, same⟩ := Draft.reported failed
  rcases Document.of_mem_texts_merge distinct held with old | new
  · rw [resolved _ old] at named
    cases named
  · exact ⟨place, s, new, named, same⟩

theorem get?_derive {leaf : String} {value : Document} (distinct : overrides.toDocument.Distinct)
    (done : theme.derive overrides = .ok draft)
    (silent : overrides.toDocument.Silent (Text.split '.' leaf))
    (held : theme.toDocument.at? (Text.split '.' leaf) = some value) :
    draft.get? leaf = some value := by
  have same := (Draft.ofDocument_eq_ok_iff.mp done).2
  rw [Draft.get?, same]
  exact Document.at?_merge_of_silent distinct silent held

/--
Creating a theme from one that was read fails exactly when some text of the overrides is an alias,
and then reports one of these at its place. Otherwise every leaf of the schema that the overrides
leave alone has the value that it has in the theme.
-/
theorem create_spec (read : ofDocument document = .ok theme)
    (distinct : overrides.toDocument.Distinct) (base : Base) :
    ((∃ e, (create overrides (some theme) base).1 = .error e) ↔
      ∃ held ∈ overrides.toDocument.texts, isAlias held.2 = true) ∧
    (∀ e, (create overrides (some theme) base).1 = .error e → ∃ place s,
      (place, s) ∈ overrides.toDocument.texts ∧ isAlias s = true ∧
        e = .unresolvedAlias (Text.join '.' place) s) ∧
    ∀ draft, (create overrides (some theme) base).1 = .ok draft →
      ∀ leaf kind, schema.at? (Text.split '.' leaf) = some (.ofKind kind) →
        overrides.toDocument.Silent (Text.split '.' leaf) →
        ∃ value, theme.toDocument.at? (Text.split '.' leaf) = some value ∧
          draft.get? leaf = some value := by
  have resolved := ofDocument_resolved read
  refine ⟨?_, ?_, ?_⟩
  · have refused : (∃ e, (create overrides (some theme) base).1 = .error e) ↔
        ¬ (theme.toDocument.merge overrides.toDocument).Resolved := Draft.ofDocument_eq_error_iff
    rw [refused, resolved_merge_iff resolved distinct]
    simp [Document.Resolved]
  · intro e failed
    exact reported_of_derive resolved distinct failed
  · intro draft done leaf kind declared silent
    obtain ⟨value, held⟩ := exists_at?_toDocument read declared
    exact ⟨value, held, get?_derive distinct done silent held⟩

theorem create_onto_blank : ∃ theme, ofDocument (blankWith []) = .ok theme ∧
    (create ⟨[("modes", .array [.text "dark", .text "\x7bMode.Dark\x7d"]), ("name", .null)]⟩
      (some theme) .unset).1 = .error (.unresolvedAlias "modes.1" "\x7bMode.Dark\x7d") ∧
    ∃ draft, (create ⟨[("semantic", .object [("color", .object
        [("primary", .text "black"), ("onPrimary", .null)])])]⟩ (some theme) .unset).1 = .ok draft ∧
      ∃ value, theme.toDocument.at? ["semantic", "color", "onPrimary"] = some value ∧
        draft.get? "semantic.color.onPrimary" = some value := by
  obtain ⟨declared, read⟩ := ofDocument_blank
  refine ⟨_, read, ?_, ?_⟩
  · have distinct : (Overrides.toDocument
        ⟨[("modes", .array [.text "dark", .text "\x7bMode.Dark\x7d"]), ("name", .null)]⟩).Distinct :=
      ⟨by decide, ⟨trivial, trivial, trivial⟩, trivial, trivial⟩
    have texts : (Overrides.toDocument
        ⟨[("modes", .array [.text "dark", .text "\x7bMode.Dark\x7d"]), ("name", .null)]⟩).texts =
        [(["modes", "0"], "dark"), (["modes", "1"], "\x7bMode.Dark\x7d")] := by decide +kernel
    obtain ⟨refused, reported, -⟩ := create_spec read distinct .unset
    rw [texts] at refused reported
    obtain ⟨e, failed⟩ := refused.mpr ⟨_, List.mem_cons_of_mem _ List.mem_cons_self, by decide⟩
    obtain ⟨place, s, held, named, rfl⟩ := reported e failed
    rcases List.mem_cons.mp held with first | second
    · cases first
      exact absurd named (by decide)
    · cases List.mem_singleton.mp second
      have joined : Text.join '.' ["modes", "1"] = "modes.1" := by decide +kernel
      rw [failed, joined]
  · have distinct : (Overrides.toDocument ⟨[("semantic", .object [("color", .object
        [("primary", .text "black"), ("onPrimary", .null)])])]⟩).Distinct :=
      ⟨by decide, ⟨by decide, ⟨by decide, trivial, trivial, trivial⟩, trivial⟩, trivial⟩
    have plain : ∀ held ∈ (Overrides.toDocument ⟨[("semantic", .object [("color", .object
        [("primary", .text "black"), ("onPrimary", .null)])])]⟩).texts,
        isAlias held.2 = false := by decide
    have cut : Text.split '.' "semantic.color.onPrimary" = ["semantic", "color", "onPrimary"] := by
      decide +kernel
    obtain ⟨refused, -, kept⟩ := create_spec read distinct .unset
    cases done : (create ⟨[("semantic", .object [("color", .object
        [("primary", .text "black"), ("onPrimary", .null)])])]⟩
        (some ⟨.record declared []⟩) .unset).1 with
    | error e =>
        obtain ⟨held, listed, named⟩ := refused.mp ⟨e, done⟩
        rw [plain held listed] at named
        cases named
    | ok draft =>
        refine ⟨draft, rfl, ?_⟩
        have leaf := kept draft done "semantic.color.onPrimary" .text
        rw [cut] at leaf
        apply leaf rfl
        refine ⟨.inr rfl, ?_⟩
        intro i inside value reached
        match i, inside with
        | 0, _ => exact .inr ⟨_, (Option.some.inj reached).symm⟩
        | 1, _ => exact .inr ⟨_, (Option.some.inj reached).symm⟩
        | 2, _ => exact .inr ⟨_, (Option.some.inj reached).symm⟩

end DesignTokens.Theme
