import DesignTokens.Proofs.Theme.Assembled
import DesignTokens.Proofs.Theme.Overlaps
import DesignTokens.Proofs.Theme.Rereading

/-!
Themes that were assembled from any tree at all. A number without a written form would have become
`null`, and no field takes that, so the numbers of a theme are finite and it is all declared fields.
-/

namespace DesignTokens.Theme

open Token

variable {pairs : List (String × Scalar)} {entries after : Entries Document} {path : List String}
  {pair : String × Scalar} {tree : Tree} {name : String} {theme : Theme} {value : Field → Scalar}

theorem valued_apart (value : Field → Scalar) :
    (valued value (phased fields)).Pairwise fun pair other =>
      Apart (Text.split '.' other.1) (Text.split '.' pair.1) := by
  have distinct : (valued value (phased fields)).names.Nodup := by
    rw [names_valued]
    exact fields_arranged.nodup_phased
  have leaf : ∀ pair ∈ valued value (phased fields),
      ∃ kind, schema.at? (Text.split '.' pair.1) = some (.ofKind kind) := by
    intro pair listed
    obtain ⟨field, member, rfl⟩ := List.mem_map.mp listed
    obtain ⟨kind, -, leaf⟩ := leaf_of_field (mem_phased.mp member)
    exact ⟨kind, leaf⟩
  apply (List.pairwise_map.mp distinct).imp_of_mem
  intro pair other first later different
  obtain ⟨kind, here⟩ := leaf pair first
  obtain ⟨kind', there⟩ := leaf other later
  have elsewhere := split_ne different
  exact ⟨Schema.leaf_not_prefix there here elsewhere.symm,
    Schema.leaf_not_prefix here there elsewhere⟩

theorem written_of_read {scalar : Scalar} {kind : Kind} {part : Part}
    (read : (Schema.ofKind kind).read scalar.toDocument = .ok part) : Written scalar := by
  cases scalar with
  | text s => trivial
  | number x =>
      cases finite : x.isFinite with
      | true => exact finite
      | false => cases kind <;> simp [Schema.ofKind, Scalar.toDocument, Document.ofBinary64, finite,
          Schema.read] at read

structure Making (tree : Tree) (name : String) (theme : Theme) (document : Document)
    (value : Field → Scalar) : Prop where
  solves : Solves tree fields value
  written : ∀ field ∈ fields, Written (value field)
  filled : Filled name value document
  read : ofDocument document = .ok theme

theorem exists_of_assembleWith {fields : List Field} {resolved : Entries Scalar}
    (found : resolveFields tree fields = .ok resolved)
    (done : assembleWith tree fields name = .ok theme) :
    ∃ after, fold resolved [("name", .text name)] = .ok after ∧
      ofDocument (.object after) = .ok theme := by
  rw [assembleWith, assembleDocument, found] at done
  cases folded : fold resolved [("name", .text name)] with
  | error e => simp [folded] at done
  | ok after => exact ⟨after, rfl, by simpa only [folded] using done⟩

theorem making_of_assemble (done : assemble tree name = .ok theme) :
    ∃ document value, Making tree name theme document value := by
  rcases meets_or_fails tree fields with met | ⟨e, failed, -⟩
  · have solves := fields_arranged.solves met
    have found := resolveFields_eq_ok fields_arranged solves
    obtain ⟨after, folded, read⟩ := exists_of_assembleWith found done
    have values := at?_fold folded (valued_apart _)
    have written : ∀ field ∈ fields, Written (tableValue tree fields field) := by
      intro field member
      obtain ⟨kind, -, leaf⟩ := leaf_of_field member
      obtain ⟨held, part, reached, -, taken⟩ :=
        Schema.read_at (ofDocument_eq_ok_iff.mp read).2 leaf
      have here := values _ (List.mem_map.mpr ⟨field, mem_phased.mpr member, rfl⟩)
      rw [Field.place, here, Option.some.injEq] at reached
      exact written_of_read (reached ▸ taken)
    obtain ⟨document, made, filled⟩ := assembleDocument_eq_ok solves written name
    rw [assembleDocument_of_fold found folded, Except.ok.injEq] at made
    exact ⟨document, _, solves, written, filled, made ▸ read⟩
  · rw [assemble_of_failure name failed] at done
    cases done

/-- What a schema asks for and no more: texts, finite numbers, and records of the declared fields. -/
inductive Schema.Solid : Schema → Part → Prop
  | text (s : String) : Solid .text (.text s)
  | number {x : Binary64} (finite : x.isFinite = true) : Solid .number (.number x)
  | record {title : String} {fields : List (String × Schema)} {declared : Entries Part}
      (order : Entries.names declared = Entries.names fields)
      (each : ∀ name schema part, Entries.value? name fields = some schema →
        (name, part) ∈ declared → Solid schema part) :
      Solid (.record title fields) (.record declared [])

theorem Schema.Admits.solid {schema : Schema} {document : Document} {part : Part}
    (admits : schema.Admits document) (read : schema.read document = .ok part)
    (finite : ∀ path n, document.at? path = some (.number n) → n.toBinary64.isFinite = true) :
    schema.Solid part := by
  induction admits generalizing part with
  | text s =>
      rw [Schema.read, Except.ok.injEq] at read
      exact read ▸ .text s
  | number n =>
      rw [Schema.read, Except.ok.injEq] at read
      exact read ▸ .number (finite [] n rfl)
  | @record title fields entries distinct declared admitted ih =>
      obtain ⟨_, met, extra, parts, same, rfl, first, second⟩ := Schema.read_record_eq_ok read
      cases same
      have whole := recordRead_of_ok first second
      have nothing : extra = [] := by
        rw [whole.rest, undeclared, List.filter_eq_nil_iff]
        intro entry listed missing
        have known := declared entry.1 entry.2 (Entries.value?_of_mem distinct listed)
        exact Entries.value?_eq_none.mp (Option.isNone_iff_eq_none.mp missing) known
      subst nothing
      refine .record whole.order ?_
      intro name schema part known listed
      obtain ⟨schema', value, known', found, taken⟩ := whole.found name part listed
      rw [known, Option.some.injEq] at known'
      subst known'
      apply ih name value schema found known taken
      intro path n reached
      apply finite (name :: path) n
      rw [Document.at?_object, found]
      exact reached

theorem Making.finite {document : Document} (making : Making tree name theme document value)
    {path : List String} {n : Number} (reached : document.at? path = some (.number n)) :
    n.toBinary64.isFinite = true := by
  obtain ⟨found, leaf, fits⟩ := making.filled.admits.at? reached
  cases fits
  have leaf' : schema.at? path = some (.ofKind .number) := leaf
  rcases field_of_leaf leaf' with ⟨rfl, -⟩ | ⟨field, member, rfl⟩
  · rw [making.filled.name] at reached
    cases reached
  · rw [making.filled.field field member, Option.some.injEq] at reached
    cases held : value field with
    | text s =>
        rw [held] at reached
        cases reached
    | number x =>
        have finite : x.isFinite = true := by
          have written := making.written field member
          rwa [held] at written
        rw [held, Scalar.toDocument, Document.ofBinary64, if_pos finite, Document.number.injEq] at reached
        rw [← reached, Number.isFinite_toBinary64_ofBinary64]
        exact finite

theorem solid_of_assemble (done : assemble tree name = .ok theme) :
    theme.name = name ∧ schema.Solid theme.root := by
  obtain ⟨document, value, making⟩ := making_of_assemble done
  obtain ⟨root, read, assembled⟩ := making.filled.theme making.solves making.written
  have taken := (ofDocument_eq_ok_iff.mp making.read).2
  rw [read, Except.ok.injEq] at taken
  subst taken
  exact ⟨assembled.name, making.filled.admits.solid read fun _ _ => making.finite⟩

end DesignTokens.Theme
