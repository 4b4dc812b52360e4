import DesignTokens.Proofs.Theme.Phases

/-!
Arranged tables: fields are only ever copied from a tier that is done. Such a table is resolved
whenever its tokens are, and otherwise the first field that fails gives the error.
-/

namespace DesignTokens.Theme

open Token

/-- Names are distinct, and fields are only copied from semantic fields that are no copies. -/
structure Arranged (fields : List Field) : Prop where
  distinct : (fields.map Field.name).Nodup
  semantic : ∀ field ∈ fields, field.tier = .semantic →
    ∀ other, field.source ≠ .derived (.copy other)
  copied : ∀ field ∈ fields, ∀ other, field.source = .derived (.copy other) →
    ∃ source ∈ fields, source.name = other ∧ source.tier = .semantic

def phased (fields : List Field) : List Field := ofTier fields .semantic ++ ofTier fields .component

structure Solves (tree : Tree) (fields : List Field) (value : Field → Scalar) : Prop where
  token : ∀ field ∈ fields, Given tree value field
  constant : ∀ field ∈ fields, ∀ x, field.source = .derived (.constant x) →
    value field = .number x
  copy : ∀ field ∈ fields, ∀ source ∈ fields, field.source = .derived (.copy source.name) →
    value field = value source

def Meets (tree : Tree) (field : Field) : Prop :=
  ∀ path kind, field.source = .token path kind →
    ∃ scalar, tree.resolveAt path = .ok scalar ∧ scalar.kind = kind

def Fails (tree : Tree) (field : Field) (e : ThemeError) : Prop :=
  ∃ path kind, field.source = .token path kind ∧
    ((∃ cause, tree.resolveAt path = .error cause ∧ e = .token cause) ∨
      ∃ scalar, tree.resolveAt path = .ok scalar ∧ scalar.kind ≠ kind ∧
        e = .typeMismatch field.name path kind scalar.kind)

variable {tree : Tree} {own fields : List Field} {value : Field → Scalar}
  {resolved : Entries Scalar} {e : ThemeError}

theorem phased_perm (fields : List Field) : (phased fields).Perm fields := by
  have tiers (tier : Tier) : (ofTier fields tier).Perm (fields.filter fun field => field.tier = tier) :=
    List.filter_append_perm ..
  have other : (fields.filter fun field => field.tier = .component) =
      fields.filter fun field => !decide (field.tier = .semantic) := by
    apply List.filter_congr
    intro field _
    cases field.tier <;> rfl
  have whole : (fields.filter (fun field => field.tier = .semantic) ++
      fields.filter fun field => field.tier = .component).Perm fields := by
    rw [other]
    exact List.filter_append_perm ..
  exact ((tiers .semantic).append (tiers .component)).trans whole

theorem mem_phased {field : Field} : field ∈ phased fields ↔ field ∈ fields :=
  (phased_perm fields).mem_iff

def asked (fields : List Field) : List Field :=
  (fields.filter fun field => field.tier = .semantic) ++
    fields.filter fun field => field.tier = .component

theorem mem_asked {field : Field} : field ∈ asked fields ↔ field ∈ fields := by
  cases tier : field.tier <;> simp [asked, tier]

theorem Arranged.nodup_phased (arranged : Arranged fields) :
    ((phased fields).map Field.name).Nodup :=
  ((phased_perm fields).map Field.name).nodup_iff.mpr arranged.distinct

theorem Arranged.fresh (arranged : Arranged fields) :
    Fresh [] ((phased fields).map Field.name) := arranged.nodup_phased

theorem failure?_eq_none_iff {field : Field} : failure? tree field = none ↔ Meets tree field := by
  cases given : field.source with
  | derived rule => simp [failure?, Meets, given]
  | token path kind =>
      cases reads : tree.resolveAt path with
      | error e => simp [failure?, Meets, given, reads]
      | ok scalar => simp [failure?, Meets, given, reads]

theorem failure?_eq_some {field : Field} (failed : failure? tree field = some e) :
    Fails tree field e := by
  cases given : field.source with
  | derived rule => simp [failure?, given] at failed
  | token path kind =>
      refine ⟨path, kind, given, ?_⟩
      cases reads : tree.resolveAt path with
      | error cause =>
          simp only [failure?, given, reads, Option.some.injEq] at failed
          exact .inl ⟨cause, rfl, failed.symm⟩
      | ok scalar =>
          simp only [failure?, given, reads] at failed
          split at failed
          · cases failed
          · rename_i other
            exact .inr ⟨scalar, rfl, other, (Option.some.inj failed).symm⟩

/-- The error of the first field whose token fails it, all semantic fields before the others. -/
def FirstFailure (tree : Tree) (fields : List Field) (e : ThemeError) : Prop :=
  ∃ before field after, asked fields = before ++ field :: after ∧
    (∀ earlier ∈ before, Meets tree earlier) ∧ Fails tree field e

theorem meets_or_fails (tree : Tree) (fields : List Field) :
    (∀ field ∈ fields, Meets tree field) ∨
      ∃ e, (asked fields).findSome? (failure? tree) = some e ∧ FirstFailure tree fields e ∧
        ∃ field ∈ fields, ¬ Meets tree field := by
  cases first : (asked fields).findSome? (failure? tree) with
  | none =>
      left
      intro field member
      exact failure?_eq_none_iff.mp (List.findSome?_eq_none_iff.mp first field (mem_asked.mpr member))
  | some e =>
      right
      rcases List.findSome?_eq_some_iff.mp first with ⟨before, field, after, order, failed, earlier⟩
      have met : ∀ other ∈ before, Meets tree other :=
        fun other listed => failure?_eq_none_iff.mp (earlier other listed)
      have member : field ∈ fields := mem_asked.mp (order ▸ List.mem_append_right _ List.mem_cons_self)
      have fails := failure?_eq_some failed
      refine ⟨e, rfl, ⟨before, field, after, order, met, fails⟩, field, member, ?_⟩
      intro meets
      rw [failure?_eq_none_iff.mpr meets] at failed
      cases failed

def ownValue (tree : Tree) (field : Field) : Scalar :=
  match field.source with
  | .token path _ => (tree.resolveAt path).toOption.getD (.text "")
  | .derived (.constant x) => .number x
  | .derived (.copy _) => .text ""

def tableValue (tree : Tree) (fields : List Field) (field : Field) : Scalar :=
  match field.source with
  | .derived (.copy other) =>
      ((fields.find? fun source => source.name = other).map (ownValue tree)).getD (.text "")
  | _ => ownValue tree field

theorem ownValue_given {field : Field} (meets : Meets tree field) :
    Given tree (ownValue tree) field := by
  intro path kind given
  rcases meets path kind given with ⟨scalar, reads, fits⟩
  have same : ownValue tree field = scalar := by simp [ownValue, given, reads, Except.toOption]
  exact ⟨same ▸ reads, same ▸ fits⟩

theorem find?_name {field : Field} (distinct : (fields.map Field.name).Nodup)
    (member : field ∈ fields) :
    (fields.find? fun other => other.name = field.name) = some field := by
  induction fields with
  | nil => cases member
  | cons head rest ih =>
      rcases List.nodup_cons.mp distinct with ⟨fresh, distinct'⟩
      rcases List.mem_cons.mp member with rfl | later
      · simp
      · have other : head.name ≠ field.name :=
          fun same => fresh (same ▸ List.mem_map.mpr ⟨field, later, rfl⟩)
        rw [List.find?_cons_of_neg (by simpa using other)]
        exact ih distinct' later

theorem eq_of_name {field other : Field} (distinct : (fields.map Field.name).Nodup)
    (member : field ∈ fields) (member' : other ∈ fields) (same : field.name = other.name) :
    field = other := by
  have found := find?_name distinct member
  rw [same, find?_name distinct member'] at found
  exact (Option.some.inj found).symm

/-- Where no token fails there is a value for every field. -/
theorem Arranged.solves (arranged : Arranged fields)
    (met : ∀ field ∈ fields, Meets tree field) :
    Solves tree fields (tableValue tree fields) where
  token := by
    intro field member path kind given
    have same : tableValue tree fields field = ownValue tree field := by simp [tableValue, given]
    rw [same]
    exact ownValue_given (met field member) path kind given
  constant := by
    intro field member x given
    simp [tableValue, ownValue, given]
  copy := by
    intro field member source listed given
    rcases arranged.copied field member _ given with ⟨other, listed', same, tier⟩
    obtain rfl := eq_of_name arranged.distinct listed listed' same.symm
    have found := find?_name arranged.distinct listed
    have own : tableValue tree fields source = ownValue tree source := by
      cases origin : source.source with
      | token path kind => simp [tableValue, origin]
      | derived rule =>
          cases rule with
          | constant x => simp [tableValue, origin]
          | copy name => exact absurd origin (arranged.semantic source listed tier name)
    rw [own]
    simp [tableValue, given, found]

theorem resolveTier_semantic (value : Field → Scalar) (arranged : Arranged fields)
    (reads : ∀ field ∈ fields, field.tier = .semantic → Given tree value field)
    (constant : ∀ field ∈ fields, ∀ x, field.source = .derived (.constant x) →
      value field = .number x) :
    resolveTier tree fields .semantic [] = .ok (valued value (ofTier fields .semantic)) := by
  apply resolveTier_eq_ok reads
  · intro field member tier rule given
    cases rule with
    | constant x => rw [constant field member x given, Rule.value?]
    | copy other => exact absurd given (arranged.semantic field member tier other)
  · exact arranged.fresh.sublist ((List.sublist_append_left ..).map _)

theorem resolveFields_eq_error (arranged : Arranged fields)
    (failed : (asked fields).findSome? (failure? tree) = some e) :
    resolveFields tree fields = .error e := by
  rw [asked, List.findSome?_append] at failed
  cases first : (fields.filter fun field => field.tier = .semantic).findSome? (failure? tree) with
  | some cause =>
      rw [first] at failed
      cases failed
      rw [resolveFields, resolveTier_eq_error first]
  | none =>
      rw [first] at failed
      have passed := List.findSome?_eq_none_iff.mp first
      have semantic := resolveTier_semantic (ownValue tree) arranged
        (fun field member tier =>
          ownValue_given (failure?_eq_none_iff.mp (passed field (by simpa using ⟨member, tier⟩))))
        (fun field _ x given => by simp [ownValue, given])
      rw [resolveFields, semantic]
      exact resolveTier_eq_error failed

theorem resolveFields_eq_ok (arranged : Arranged fields) (solves : Solves tree fields value) :
    resolveFields tree fields = .ok (valued value (phased fields)) := by
  have semantic := resolveTier_semantic value arranged
    (fun field member _ => solves.token field member) solves.constant
  have component : resolveTier tree fields .component (valued value (ofTier fields .semantic)) =
      .ok (valued value (ofTier fields .semantic) ++ valued value (ofTier fields .component)) := by
    apply resolveTier_eq_ok (fun field member _ => solves.token field member)
    · intro field member tier rule given
      cases rule with
      | constant x => rw [solves.constant field member x given, Rule.value?]
      | copy other =>
          rcases arranged.copied field member other given with ⟨source, listed, rfl, tier'⟩
          rw [solves.copy field member source listed given, Rule.value?]
          have done : source ∈ ofTier fields .semantic := by
            have sorted := List.mem_append.mp (mem_phased.mpr listed)
            simpa [ofTier, tier'] using sorted
          apply Entries.value?_of_mem
          · rw [names_valued]
            exact arranged.fresh.sublist ((List.sublist_append_left ..).map _)
          · exact List.mem_map.mpr ⟨source, done, rfl⟩
    · exact arranged.fresh.behind value
  rw [resolveFields, semantic]
  simpa [phased, valued] using component

end DesignTokens.Theme
