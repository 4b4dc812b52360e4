import DesignTokens.Proofs.Number.Exact
import DesignTokens.Proofs.Theme.Agreement
import DesignTokens.Proofs.Theme.Aliases
import DesignTokens.Proofs.Theme.Checked
import DesignTokens.Proofs.Theme.Folding
import DesignTokens.Proofs.Token.Numbers

/-!
Assembling a theme from any tree. The tokens that fields ask for and the aliases among their texts
decide alone whether it succeeds; the schema never gets in the way.
-/

namespace DesignTokens.Theme

open Token

def Part.Shows : Part → Scalar → Prop
  | .text s, .text t => s = t
  | .number x, .number y => x.sameValue y = true
  | _, _ => False

def part? (theme : Theme) (name : String) : Option Part := theme.root.at? (Text.split '.' name)

/-- What a theme assembled from a tree under a name holds. -/
structure Assembled (tree : Tree) (name : String) (theme : Theme) : Prop where
  name : theme.name = name
  plain : theme.root.Plain
  token : ∀ field ∈ fields, ∀ path kind, field.source = .token path kind →
    ∃ scalar part, tree.resolveAt path = .ok scalar ∧ theme.part? field.name = some part ∧
      part.Shows scalar
  constant : ∀ field ∈ fields, ∀ x, field.source = .derived (.constant x) →
    ∃ part, theme.part? field.name = some part ∧ part.Shows (.number x)
  copy : ∀ field ∈ fields, ∀ other, field.source = .derived (.copy other) →
    ∃ part, theme.part? field.name = some part ∧ theme.part? other = some part

variable {tree : Tree} {value : Field → Scalar} {field : Field}

/-- A value comes from a token or is a constant; that of a copy comes from the field it copies. -/
theorem Solves.origin (solves : Solves tree fields value) (member : field ∈ fields) :
    ∃ source ∈ fields, value field = value source ∧
      ((∃ path kind, source.source = .token path kind ∧ Table.kind? field = some kind) ∨
        ∃ x, source.source = .derived (.constant x) ∧ Table.kind? field = some .number) := by
  cases given : field.source with
  | token path kind =>
      exact ⟨field, member, rfl, .inl ⟨path, kind, given, by simp [Table.kind?, Field.ownKind?, given]⟩⟩
  | derived rule =>
      cases rule with
      | constant x =>
          exact ⟨field, member, rfl, .inr ⟨x, given, by simp [Table.kind?, Field.ownKind?, given]⟩⟩
      | copy other =>
          rcases leaf_of_field member with ⟨kind, kinds, -⟩
          rcases find_copied given kinds with ⟨source, early, rfl, own⟩
          have listed : source ∈ fields := List.mem_append_left _ early
          refine ⟨source, listed, solves.copy field member source listed given, ?_⟩
          rw [kinds]
          cases origin : source.source with
          | token path kind' => exact .inl ⟨path, kind', rfl, by simp [← own, Field.ownKind?, origin]⟩
          | derived rule =>
              cases rule with
              | constant x => exact .inr ⟨x, rfl, by simp [← own, Field.ownKind?, origin]⟩
              | copy name => simp [Field.ownKind?, origin] at own

theorem Solves.kind_eq (solves : Solves tree fields value) (member : field ∈ fields) :
    Table.kind? field = some (value field).kind := by
  obtain ⟨source, listed, same, ⟨path, kind, given, kinds⟩ | ⟨x, given, kinds⟩⟩ :=
    solves.origin member
  · rw [same, (solves.token source listed path kind given).2, kinds]
  · rw [same, solves.constant source listed x given, kinds]
    rfl

theorem Solves.written (solves : Solves tree fields value) (fit : tree.NumbersFit)
    (member : field ∈ fields) : Written (value field) := by
  rcases solves.origin member with ⟨source, listed, same, ⟨path, kind, given, -⟩ | ⟨x, given, -⟩⟩
  · have reads := (solves.token source listed path kind given).1
    rw [same]
    cases resolved : value source with
    | number x => exact fit.isFinite (resolved ▸ reads)
    | text s => trivial
  · have finite := constants_finite source listed
    simp only [Field.constantFinite, given] at finite
    rw [same, solves.constant source listed x given]
    exact finite

theorem Solves.fills (solves : Solves tree fields value)
    (written : ∀ field ∈ fields, Written (value field)) :
    ∀ pair ∈ valued value (phased fields), Fills schema pair := by
  intro pair present
  rcases List.mem_map.mp present with ⟨field, listed, rfl⟩
  have member := mem_phased.mp listed
  rcases leaf_of_field member with ⟨kind, kinds, leaf⟩
  rw [solves.kind_eq member] at kinds
  cases kinds
  exact ⟨leaf, written field member⟩

structure Filled (name : String) (value : Field → Scalar) (document : Document) : Prop where
  admits : schema.Admits document
  name : document.at? ["name"] = some (.text name)
  field : ∀ field ∈ fields, document.at? field.place = some (value field).toDocument

theorem name_leaf : schema.at? ["name"] = some (.ofKind .text) := by
  simp [schema, Schema.at?, Entries.value?, Schema.ofKind]

theorem name_of_read {document : Document} {root : Part} {s : String}
    (read : schema.read document = .ok root) (held : document.at? ["name"] = some (.text s)) :
    Theme.name ⟨root⟩ = s := by
  have here := Schema.read_text read name_leaf held
  have named : root.field? "name" = some (.text s) := by simpa [Part.at?] using here
  simp [Theme.name, named, Part.text?]

theorem admits_name (name : String) : schema.Admits (.object [("name", .text name)]) :=
  have field : Entries.value? "name" [("name", Schema.text), ("semantic", Semantic.semantic),
      ("component", Component.component)] = some .text := by simp [Entries.value?]
  (Schema.admits_nothing "Theme" _).put field (.text name)

/-- The fields fold into a document without getting in each other's way. -/
theorem assembleDocument_eq_ok (solves : Solves tree fields value)
    (written : ∀ field ∈ fields, Written (value field)) (name : String) :
    ∃ document, assembleDocument tree fields name = .ok document ∧ Filled name value document := by
  have distinct : (valued value (phased fields)).names.Nodup := by
    rw [names_valued]
    exact fields_arranged.nodup_phased
  obtain ⟨after, folded, admits, values, kept⟩ :=
    fold_of_leaves (admits_name name) (solves.fills written) distinct
  refine ⟨.object after, ?_, admits, ?_, ?_⟩
  · exact assembleDocument_of_fold (resolveFields_eq_ok fields_arranged solves) folded
  · have apart : ∀ pair ∈ valued value (phased fields), ["name"] ≠ Text.split '.' pair.1 := by
      intro pair present
      rcases List.mem_map.mp present with ⟨field, listed, rfl⟩
      exact (place_ne_name (mem_phased.mp listed)).symm
    rw [kept _ _ name_leaf apart]
    simp [Document.at?, Document.field?, Document.entries?, Entries.value?]
  · intro field member
    exact values (field.name, value field) (List.mem_map.mpr ⟨field, mem_phased.mpr member, rfl⟩)

variable {name : String} {document : Document}

theorem Filled.full (filled : Filled name value document) :
    ∀ leaf ∈ schema.leaves, (document.at? leaf.1).isSome := by
  intro leaf listed
  rcases field_of_leaf ((Schema.mem_leaves_iff schema_wellFormed).mp listed) with
    ⟨here, -⟩ | ⟨field, member, here⟩
  · rw [here, filled.name]
    rfl
  · rw [← here, filled.field field member]
    rfl

theorem toDocument_eq_text {scalar : Scalar} {s : String} (same : scalar.toDocument = .text s) :
    scalar = .text s := by
  cases scalar with
  | text t =>
      cases same
      rfl
  | number x =>
      simp only [Scalar.toDocument, Document.ofBinary64] at same
      split at same <;> cases same

theorem Filled.text_iff (filled : Filled name value document) {s : String} :
    (∃ path, document.at? path = some (.text s)) ↔
      s = name ∨ ∃ field ∈ fields, value field = .text s := by
  constructor
  · intro held
    rcases held with ⟨path, reached⟩
    rcases filled.admits.at? reached with ⟨found, leaf, fits⟩
    cases fits
    have leaf' : schema.at? path = some (.ofKind .text) := leaf
    rcases field_of_leaf leaf' with ⟨rfl, -⟩ | ⟨field, member, rfl⟩
    · rw [filled.name] at reached
      cases reached
      exact .inl rfl
    · rw [filled.field field member] at reached
      exact .inr ⟨field, member, toDocument_eq_text (Option.some.inj reached)⟩
  · intro held
    rcases held with rfl | ⟨field, member, same⟩
    · exact ⟨_, filled.name⟩
    · exact ⟨_, by rw [filled.field field member, same]; rfl⟩

theorem Filled.resolved_iff (filled : Filled name value document) :
    document.Resolved ↔ isAlias name = false ∧
      ∀ field ∈ fields, ∀ s, value field = .text s → isAlias s = false := by
  rw [filled.admits.resolved_iff]
  constructor
  · intro plain
    refine ⟨plain _ _ filled.name, ?_⟩
    intro field member s same
    rcases filled.text_iff.mpr (.inr ⟨field, member, same⟩) with ⟨path, reached⟩
    exact plain path s reached
  · intro held path s reached
    rcases held with ⟨named, plain⟩
    rcases filled.text_iff.mp ⟨path, reached⟩ with rfl | ⟨field, member, same⟩
    · exact named
    · exact plain field member s same

theorem shows_of_read {scalar : Scalar} {part : Part} (written : Written scalar)
    (done : (Schema.ofKind scalar.kind).read scalar.toDocument = .ok part) : part.Shows scalar := by
  cases scalar with
  | text s =>
      simp only [Scalar.kind, Schema.ofKind, Scalar.toDocument, Schema.read,
        Except.ok.injEq] at done
      subst done
      rfl
  | number x =>
      have finite : x.isFinite = true := written
      simp only [Scalar.kind, Schema.ofKind, Scalar.toDocument, Document.ofBinary64, finite,
        if_true, Schema.read, Except.ok.injEq] at done
      subst done
      exact Number.sameValue_toBinary64_ofBinary64 finite

theorem Filled.theme (filled : Filled name value document) (solves : Solves tree fields value)
    (written : ∀ field ∈ fields, Written (value field)) :
    ∃ root, schema.read document = .ok root ∧ Assembled tree name ⟨root⟩ := by
  rcases filled.admits.read schema_wellFormed filled.full with ⟨root, done, plain⟩
  have parts {field : Field} (member : field ∈ fields) :
      ∃ part, Theme.part? ⟨root⟩ field.name = some part ∧
        (Schema.ofKind (value field).kind).read (value field).toDocument = .ok part := by
    rcases leaf_of_field member with ⟨kind, kinds, leaf⟩
    rw [solves.kind_eq member] at kinds
    cases kinds
    rcases Schema.read_at done leaf with ⟨found, part, reached, here, read⟩
    rw [filled.field field member] at reached
    cases reached
    exact ⟨part, here, read⟩
  refine ⟨root, done, name_of_read done filled.name, plain, ?_, ?_, ?_⟩
  · intro field member path kind given
    rcases parts member with ⟨part, here, read⟩
    exact ⟨value field, part, (solves.token field member path kind given).1, here,
      shows_of_read (written field member) read⟩
  · intro field member x given
    rcases parts member with ⟨part, here, read⟩
    have shows' := shows_of_read (written field member) read
    exact ⟨part, here, solves.constant field member x given ▸ shows'⟩
  · intro field member other given
    rcases fields_arranged.copied field member other given with ⟨source, listed, rfl, -⟩
    rcases parts member with ⟨part, here, read⟩
    rcases parts listed with ⟨part', here', read'⟩
    rw [solves.copy field member source listed given, read'] at read
    cases read
    exact ⟨part, here, here'⟩

def PlainTokens (tree : Tree) : Prop :=
  ∀ field ∈ fields, ∀ path kind s, field.source = .token path kind →
    tree.resolveAt path = .ok (.text s) → isAlias s = false

theorem Solves.plain_iff (solves : Solves tree fields value) :
    (∀ field ∈ fields, ∀ s, value field = .text s → isAlias s = false) ↔ PlainTokens tree := by
  constructor
  · intro plain field member path kind s given reads
    apply plain field member s
    have same := (solves.token field member path kind given).1
    rw [reads] at same
    exact (Except.ok.inj same).symm
  · intro plain field member s same
    rcases solves.origin member with ⟨source, listed, same', ⟨path, kind, given, -⟩ | ⟨x, given, -⟩⟩
    · have reads := (solves.token source listed path kind given).1
      rw [← same', same] at reads
      exact plain source listed path kind s given reads
    · rw [same', solves.constant source listed x given] at same
      cases same

theorem assemble_of_failure {e : ThemeError} (name : String)
    (failed : (asked fields).findSome? (failure? tree) = some e) :
    assemble tree name = .error e := by
  have stopped := resolveFields_eq_error fields_arranged failed
  simp only [assemble, assembleWith, assembleDocument, stopped]

theorem assemble_of_plain (fit : tree.NumbersFit) (met : ∀ field ∈ fields, Meets tree field)
    (plain : PlainTokens tree) (named : isAlias name = false) :
    ∃ theme, assemble tree name = .ok theme ∧ Assembled tree name theme := by
  have solves := fields_arranged.solves met
  have written : ∀ field ∈ fields, Written _ := fun _ member => solves.written fit member
  rcases assembleDocument_eq_ok solves written name with ⟨document, made, filled⟩
  rcases filled.theme solves written with ⟨root, read, assembled⟩
  have resolved := filled.resolved_iff.mpr ⟨named, solves.plain_iff.mpr plain⟩
  have done : ofDocument document = .ok ⟨root⟩ := ofDocument_eq_ok_iff.mpr ⟨resolved, read⟩
  refine ⟨⟨root⟩, ?_, assembled⟩
  simp only [assemble, assembleWith, made, done]

theorem assemble_of_alias (fit : tree.NumbersFit) (met : ∀ field ∈ fields, Meets tree field)
    (aliased : ¬ (PlainTokens tree ∧ isAlias name = false)) :
    ∃ place s, assemble tree name = .error (.unresolvedAlias place s) ∧ isAlias s = true := by
  have solves := fields_arranged.solves met
  have written : ∀ field ∈ fields, Written _ := fun _ member => solves.written fit member
  rcases assembleDocument_eq_ok solves written name with ⟨document, made, filled⟩
  have unresolved : ¬ document.Resolved := by
    intro resolved
    rcases filled.resolved_iff.mp resolved with ⟨named, plain⟩
    exact aliased ⟨solves.plain_iff.mp plain, named⟩
  rcases ofDocument_of_alias unresolved with ⟨_, stopped, place, s, -, named, rfl⟩
  refine ⟨Text.join '.' place, s, ?_, named⟩
  simp only [assemble, assembleWith, made, stopped]

def Assemblable (tree : Tree) (name : String) : Prop :=
  (∀ field ∈ fields, Meets tree field) ∧ PlainTokens tree ∧ isAlias name = false

def Refused (tree : Tree) (e : ThemeError) : Prop :=
  FirstFailure tree fields e ∨
    ((∀ field ∈ fields, Meets tree field) ∧
      ∃ place s, e = .unresolvedAlias place s ∧ isAlias s = true)

theorem assemble_cases (tree : Tree) (name : String) (fit : tree.NumbersFit) :
    (Assemblable tree name ∧ ∃ theme, assemble tree name = .ok theme ∧ Assembled tree name theme) ∨
      (¬ Assemblable tree name ∧ ∃ e, assemble tree name = .error e ∧ Refused tree e) := by
  rcases meets_or_fails tree fields with met | ⟨e, failed, first, field, member, unmet⟩
  · by_cases plain : PlainTokens tree ∧ isAlias name = false
    · exact .inl ⟨⟨met, plain⟩, assemble_of_plain fit met plain.1 plain.2⟩
    · rcases assemble_of_alias fit met plain with ⟨place, s, stopped, named⟩
      have refused : Refused tree (.unresolvedAlias place s) := .inr ⟨met, place, s, rfl, named⟩
      exact .inr ⟨fun conditions => plain conditions.2, _, stopped, refused⟩
  · have stopped := assemble_of_failure name failed
    exact .inr ⟨fun conditions => unmet (conditions.1 field member), e, stopped, .inl first⟩

/--
A theme is assembled exactly when every token that a field asks for resolves to the right kind and
neither the name nor any of those texts is an alias. It then holds what the fields ask for. A failure
is that of the first field in the order of the phases, or an alias when no field fails.
-/
theorem assemble_spec (tree : Tree) (name : String) (fit : tree.NumbersFit) :
    ((∃ theme, assemble tree name = .ok theme) ↔
      (∀ field ∈ fields, Meets tree field) ∧ PlainTokens tree ∧ isAlias name = false) ∧
    (∀ theme, assemble tree name = .ok theme → Assembled tree name theme) ∧
    ∀ e, assemble tree name = .error e → FirstFailure tree fields e ∨
      ((∀ field ∈ fields, Meets tree field) ∧
        ∃ place s, e = .unresolvedAlias place s ∧ isAlias s = true) := by
  rcases assemble_cases tree name fit with ⟨conditions, theme, done, assembled⟩ |
    ⟨unmet, e, stopped, refused⟩
  · refine ⟨⟨fun _ => conditions, fun _ => ⟨theme, done⟩⟩, ?_, ?_⟩
    · intro other done'
      rw [done] at done'
      cases done'
      exact assembled
    · intro e failed
      rw [done] at failed
      cases failed
  · refine ⟨⟨?_, fun conditions => absurd conditions unmet⟩, ?_, ?_⟩
    · intro assembled
      rcases assembled with ⟨theme, done⟩
      rw [stopped] at done
      cases done
    · intro theme done
      rw [stopped] at done
      cases done
    · intro other failed
      rw [stopped] at failed
      cases failed
      exact refused

end DesignTokens.Theme
