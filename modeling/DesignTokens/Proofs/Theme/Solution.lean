import DesignTokens.Proofs.Theme.Settling

/-!
What resolving the fields of a table comes to: a value for every field, each taken from the tree or from
values before it, or the complaint about the first field that can have none.
-/

namespace DesignTokens.Theme

open Token

structure Closed (fields : List Field) (tier : Tier) (resolved : Entries Scalar) : Prop where
  below : ∀ field ∈ fields, field.tier = .semantic → tier = .component → field.name ∈ resolved.names
  token : ∀ field ∈ fields, field.tier = tier → field.isSourced → field.name ∈ resolved.names
  derived : ∀ field ∈ fields, field.tier = tier → field.name ∉ resolved.names →
    ∀ rule, field.source = .derived rule → rule.value? resolved = none

def Complains (tree : Tree) (field : Field) (e : ThemeError) : Prop :=
  Fails tree field e ∨
    ∃ other, field.source = .derived (.copy other) ∧ e = .unresolvedDependency field.name other

def FirstUnsettled (tree : Tree) (fields rows : List Field) (e : ThemeError) : Prop :=
  ∃ before field after, rows = before ++ field :: after ∧
    (∀ earlier ∈ before, Settled tree fields earlier) ∧
    ¬ Settled tree fields field ∧ Complains tree field e

/-- Values for all fields of a table, in an order in which they can be found. -/
structure Solution (tree : Tree) (fields : List Field) (resolved : Entries Scalar) : Prop where
  names : resolved.names.Perm (fields.map Field.name)
  constant : ∀ field ∈ fields, ∀ x, field.source = .derived (.constant x) →
    resolved.value? field.name = some (.number x)
  token : ∀ field ∈ fields, ∀ path kind, field.source = .token path kind →
    ∃ scalar, tree.resolveAt path = .ok scalar ∧ scalar.kind = kind ∧
      resolved.value? field.name = some scalar
  copy : ∀ field ∈ fields, ∀ other, field.source = .derived (.copy other) →
    ∃ scalar, resolved.value? other = some scalar ∧ resolved.value? field.name = some scalar
  tiers : ∀ field ∈ fields, ∀ other ∈ fields, field.tier = .semantic → other.tier = .component →
    resolved.Precedes field.name other.name
  copies : ∀ field ∈ fields, ∀ other, field.source = .derived (.copy other) →
    resolved.Precedes other field.name

variable {tree : Tree} {own fields others rows : List Field} {tier : Tier} {field : Field}
  {resolved middle found : Entries Scalar} {e : ThemeError} {name : String}

theorem settled_of_meets (counted : field.isSourced) (meets : Meets tree field) :
    Settled tree fields field := by
  cases given : field.source with
  | derived rule => simp [Field.isSourced, given] at counted
  | token path kind =>
      obtain ⟨scalar, reads, fits⟩ := meets path kind given
      exact .token given reads fits

theorem Fails.not_settled (fails : Fails tree field e) : ¬ Settled tree fields field := by
  obtain ⟨path, kind, given, failed⟩ := fails
  intro settled
  cases settled with
  | token given' reads fits =>
      cases given.symm.trans given'
      rcases failed with ⟨cause, reads', -⟩ | ⟨scalar, reads', other, -⟩
      · cases reads.symm.trans reads'
      · cases reads.symm.trans reads'
        exact other fits
  | constant given' => cases given.symm.trans given'
  | copy given' => cases given.symm.trans given'

/-- The least solution is reached: where nothing can be added, every field with a value has it. -/
theorem Closed.mem_of_settled (closed : Closed fields tier resolved)
    (settled : Settled tree fields field) (listed : field ∈ fields)
    (visible : ¬ (tier = .semantic ∧ field.tier = .component)) : field.name ∈ resolved.names := by
  have within : field.tier = tier ∨ field.tier = .semantic ∧ tier = .component := by
    cases tier <;> cases mine : field.tier <;> simp_all
  rcases within with within | ⟨lower, upper⟩
  · induction settled with
    | @token field path kind scalar given reads fits =>
        exact closed.token field listed within (by simp [Field.isSourced, given])
    | @constant field x given =>
        apply Decidable.byContradiction
        intro missing
        cases closed.derived field listed within missing _ given
    | @copy field source given listed' sees settled ih =>
        apply Decidable.byContradiction
        intro missing
        have absent : resolved.value? source.name = none :=
          closed.derived field listed within missing _ given
        apply Entries.value?_eq_none.mp absent
        cases mine : source.tier with
        | semantic =>
            cases tier with
            | semantic => exact ih listed' (by simp [mine]) mine
            | component => exact closed.below source listed' mine rfl
        | component =>
            have upper : tier = .component := by
              cases tier with
              | semantic => exact absurd ⟨within, mine⟩ sees
              | component => rfl
            exact ih listed' (by simp [upper]) (mine.trans upper.symm)
  · exact closed.below field listed lower upper

theorem FirstUnsettled.left (first : FirstUnsettled tree fields rows e) (more : List Field) :
    FirstUnsettled tree fields (rows ++ more) e := by
  obtain ⟨before, field, after, rfl, settled, unsettled⟩ := first
  exact ⟨before, field, after ++ more, by simp, settled, unsettled⟩

theorem FirstUnsettled.right {more : List Field} (first : FirstUnsettled tree fields more e)
    (all : ∀ field ∈ rows, Settled tree fields field) :
    FirstUnsettled tree fields (rows ++ more) e := by
  obtain ⟨before, field, after, rfl, settled, unsettled⟩ := first
  exact ⟨rows ++ before, field, after, by simp, List.forall_mem_append.mpr ⟨all, settled⟩, unsettled⟩

theorem firstUnsettled_of_failure (failed : own.findSome? (failure? tree) = some e) :
    FirstUnsettled tree fields (own.filter Field.isSourced) e := by
  obtain ⟨before, field, after, rfl, wrong, earlier⟩ := List.findSome?_eq_some_iff.mp failed
  have fails := failure?_eq_some wrong
  have counted : field.isSourced := by
    obtain ⟨path, kind, given, -⟩ := fails
    simp [Field.isSourced, given]
  refine ⟨before.filter Field.isSourced, field, after.filter Field.isSourced, ?_, ?_,
    fails.not_settled, .inl fails⟩
  · rw [List.filter_append, List.filter_cons_of_pos counted]
  · intro other present
    obtain ⟨listed, counted'⟩ := List.mem_filter.mp present
    exact settled_of_meets counted' (failure?_eq_none_iff.mp (earlier other listed))

theorem find?_rules (names : List String) (own : List Field) :
    (own.filterMap Field.rule?).find? (fun pair => pair.1 ∉ names) =
      ((own.filter fun field => !field.isSourced).find? fun field => field.name ∉ names).bind
        Field.rule? := by
  induction own with
  | nil => rfl
  | cons field rest ih =>
      cases given : field.source with
      | token path kind =>
          have skipped : field.rule? = none := by simp [Field.rule?, given]
          have counted : field.isSourced := by simp [Field.isSourced, given]
          rw [List.filterMap_cons_none skipped, List.filter_cons_of_neg (by simp [counted]), ih]
      | derived rule =>
          have here : field.rule? = some (field.name, rule) := by simp [Field.rule?, given]
          have counted : field.isSourced = false := by simp [Field.isSourced, given]
          rw [List.filterMap_cons_some here, List.filter_cons_of_pos (by simp [counted])]
          by_cases kept : field.name ∉ names
          · rw [List.find?_cons_of_pos (by simpa using kept),
              List.find?_cons_of_pos (by simpa using kept), Option.bind_some, here]
          · rw [List.find?_cons_of_neg (by simpa using kept),
              List.find?_cons_of_neg (by simpa using kept), ih]

theorem pending_rules (mine : ∀ field, field ∈ own ↔ field ∈ fields ∧ field.tier = tier) :
    Pending fields tier (own.filterMap Field.rule?) := by
  intro pair present
  obtain ⟨field, member, rule⟩ := List.mem_filterMap.mp present
  obtain ⟨listed, within⟩ := (mine field).mp member
  cases given : field.source with
  | token path kind => simp [Field.rule?, given] at rule
  | derived copied =>
      simp only [Field.rule?, given, Option.some.injEq] at rule
      exact ⟨field, listed, within, by rw [← rule], by rw [given, ← rule]⟩

theorem complains_of_derived {rule : Rule} (given : field.source = .derived rule)
    (unsettled : ¬ Settled tree fields field) :
    Complains tree field (.unresolvedDependency field.name rule.dependency) := by
  cases rule with
  | constant x => exact absurd (.constant given) unsettled
  | copy other => exact .inr ⟨other, given, rfl⟩

theorem settle_cases (mine : ∀ field, field ∈ own ↔ field ∈ fields ∧ field.tier = tier)
    (distinct : (fields.map Field.name).Nodup) (sound : Sound tree fields tier resolved)
    (below : ∀ field ∈ fields, field.tier = .semantic → tier = .component →
      field.name ∈ resolved.names)
    (token : ∀ field ∈ own, field.isSourced → field.name ∈ resolved.names)
    (fresh : Fresh resolved ((own.filter fun field => !field.isSourced).map Field.name)) :
    (∃ found, settle (own.filterMap Field.rule?) resolved = .ok found ∧
      Run tree fields tier resolved found) ∨
    ∃ e, settle (own.filterMap Field.rule?) resolved = .error e ∧
      FirstUnsettled tree fields (own.filter fun field => !field.isSourced) e := by
  rw [← names_rules] at fresh
  obtain ⟨found, run, stuck, ends⟩ := settle_eq tree (pending_rules mine) fresh
  have closed : Closed fields tier found := by
    constructor
    · exact fun field listed lower upper => run.names_subset (below field listed lower upper)
    · exact fun field listed within counted =>
        run.names_subset (token field ((mine field).mpr ⟨listed, within⟩) counted)
    · intro field listed within missing rule given
      have member : (field.name, rule) ∈ own.filterMap Field.rule? :=
        List.mem_filterMap.mpr ⟨field, (mine field).mpr ⟨listed, within⟩, by simp [Field.rule?, given]⟩
      exact stuck _ member missing
  have sound' := run.sound distinct sound
  rw [find?_rules] at ends
  cases missing : (own.filter fun field => !field.isSourced).find?
      fun field => field.name ∉ found.names with
  | none =>
      rw [missing] at ends
      exact .inl ⟨found, ends, run⟩
  | some field =>
      obtain ⟨absent, before, after, rows, earlier⟩ := List.find?_eq_some_iff_append.mp missing
      have listed {other : Field} (present : other ∈ own.filter fun field => !field.isSourced) :
          other ∈ fields ∧ other.tier = tier := (mine other).mp (List.mem_filter.mp present).1
      have present : field ∈ own.filter fun field => !field.isSourced :=
        rows ▸ List.mem_append_right _ List.mem_cons_self
      have unsettled : ¬ Settled tree fields field := by
        intro settled
        have visible : ¬ (tier = .semantic ∧ field.tier = .component) := by
          rw [(listed present).2]
          cases tier <;> simp
        have there := closed.mem_of_settled settled (listed present).1 visible
        simp [there] at absent
      cases given : field.source with
      | token path kind => simp [Field.isSourced, given] at present
      | derived rule =>
          have here : field.rule? = some (field.name, rule) := by simp [Field.rule?, given]
          rw [missing, Option.bind_some, here] at ends
          refine .inr ⟨_, ends, before, field, after, rows, ?_, unsettled,
            complains_of_derived given unsettled⟩
          intro other first
          have there : other ∈ own.filter fun field => !field.isSourced :=
            rows ▸ List.mem_append_left _ first
          exact sound'.settled other (listed there).1 (by simpa using earlier other first)

theorem resolveTier_cases (distinct : (fields.map Field.name).Nodup)
    (sound : Sound tree fields tier resolved)
    (below : ∀ field ∈ fields, field.tier = .semantic → tier = .component →
      field.name ∈ resolved.names)
    (fresh : Fresh resolved ((ofTier fields tier).map Field.name)) :
    (∃ found, resolveTier tree fields tier resolved = .ok found ∧
      Run tree fields tier resolved found) ∨
    ∃ e, resolveTier tree fields tier resolved = .error e ∧
      FirstUnsettled tree fields (ofTier fields tier) e := by
  have mine (field : Field) : field ∈ fields.filter (fun field => field.tier = tier) ↔
      field ∈ fields ∧ field.tier = tier := by simp
  cases failed : (fields.filter fun field => field.tier = tier).findSome? (failure? tree) with
  | some e => exact .inr ⟨e, resolveTier_eq_error failed, (firstUnsettled_of_failure failed).left _⟩
  | none =>
      have met (field : Field) (member : field ∈ fields.filter fun field => field.tier = tier) :
          Meets tree field := failure?_eq_none_iff.mp (List.findSome?_eq_none_iff.mp failed field member)
      have fresh' := fresh.sublist ((List.sublist_append_left ..).map Field.name)
      have sourced := resolveSourced_eq_ok (fun field member => ownValue_given (met field member)) fresh'
      have first := run_resolveSourced (fun field => (mine field).mp) fresh' sourced
      have names := names_resolveSourced fresh' sourced
      have second := settle_cases mine distinct (first.sound distinct sound)
        (fun field listed lower upper => first.names_subset (below field listed lower upper))
        (fun field member counted => by
          rw [names]
          exact List.mem_append_right _ (List.mem_map_of_mem (List.mem_filter.mpr ⟨member, counted⟩)))
        (fresh.behind _)
      rcases second with ⟨found, done, run⟩ | ⟨e, failed', unsettled⟩
      · exact .inl ⟨found, by simp only [resolveTier, sourced, done], first.trans run⟩
      · refine .inr ⟨e, by simp only [resolveTier, sourced, failed'], unsettled.right ?_⟩
        intro field present
        obtain ⟨member, counted⟩ := List.mem_filter.mp present
        exact settled_of_meets counted (met field member)

theorem Sound.all_settled (sound : Sound tree fields tier resolved)
    (names : (rows.map Field.name) ⊆ resolved.names) (sub : rows ⊆ fields) :
    ∀ field ∈ rows, Settled tree fields field :=
  fun field listed => sound.settled field (sub listed) (names (List.mem_map_of_mem listed))

theorem ofTier_subset (fields : List Field) (tier : Tier) : ofTier fields tier ⊆ fields := by
  intro field listed
  have sorted := (List.filter_append_perm ..).mem_iff.mp listed
  exact (List.mem_filter.mp sorted).1

theorem mem_ofTier (listed : field ∈ fields) (within : field.tier = tier) :
    field ∈ ofTier fields tier :=
  (List.filter_append_perm ..).mem_iff.mpr (List.mem_filter.mpr ⟨listed, by simpa using within⟩)

theorem resolveFields_cases (tree : Tree) (distinct : (fields.map Field.name).Nodup) :
    (∃ middle found, resolveFields tree fields = .ok found ∧
      Run tree fields .semantic [] middle ∧ Run tree fields .component middle found ∧
      middle.names.Perm ((ofTier fields .semantic).map Field.name)) ∨
    ∃ e, resolveFields tree fields = .error e ∧ FirstUnsettled tree fields (phased fields) e := by
  have fresh : Fresh [] ((phased fields).map Field.name) :=
    ((phased_perm fields).map Field.name).nodup_iff.mpr distinct
  rw [phased, List.map_append] at fresh
  have nothing : Sound tree fields .semantic [] := sound_nil
  have semantic := resolveTier_cases distinct nothing (fun _ _ _ other => absurd other (by decide))
    (fresh.sublist (List.sublist_append_left ..))
  rcases semantic with ⟨middle, first, run⟩ | ⟨e, first, unsettled⟩
  · have names := names_resolveTier (fresh.sublist (List.sublist_append_left ..)) first
    have sound := run.sound distinct nothing
    have fresh' : Fresh middle ((ofTier fields .component).map Field.name) :=
      (names.append_right _).nodup_iff.mpr fresh
    have below : ∀ field ∈ fields, field.tier = .semantic → Tier.component = .component →
        field.name ∈ middle.names := fun field listed within _ =>
      names.mem_iff.mpr (List.mem_map_of_mem (mem_ofTier listed within))
    rcases resolveTier_cases distinct sound.later below fresh' with
      ⟨found, second, run'⟩ | ⟨e, second, unsettled⟩
    · exact .inl ⟨middle, found, by simp only [resolveFields, first, second], run, run', names⟩
    · refine .inr ⟨e, by simp only [resolveFields, first, second], unsettled.right ?_⟩
      exact sound.all_settled (fun name present => names.mem_iff.mpr present) (ofTier_subset ..)
  · exact .inr ⟨e, by simp only [resolveFields, first], unsettled.left _⟩

theorem solution_of_ok (distinct : (fields.map Field.name).Nodup)
    (done : resolveFields tree fields = .ok found) :
    Sound tree fields .component found ∧ Solution tree fields found := by
  have names := names_resolveFields distinct done
  rcases resolveFields_cases tree distinct with ⟨middle, other, same, first, second, semantic⟩ | failed
  · rw [done] at same
    cases same
    have lower := first.sound distinct sound_nil
    have sound := second.sound distinct lower.later
    have held (field : Field) (listed : field ∈ fields) :
        ∃ scalar, found.value? field.name = some scalar ∧ Takes tree found field scalar := by
      have there : field.name ∈ found.names := names.mem_iff.mpr (List.mem_map_of_mem listed)
      cases value : found.value? field.name with
      | none => exact absurd there (Entries.value?_eq_none.mp value)
      | some scalar => exact ⟨scalar, rfl, sound.takes field listed scalar value⟩
    refine ⟨sound, names, ?_, ?_, ?_, ?_, ?_⟩
    · intro field listed x given
      obtain ⟨scalar, value, takes⟩ := held field listed
      simp only [Takes, given, Rule.value?] at takes
      rw [value, ← takes]
    · intro field listed path kind given
      obtain ⟨scalar, value, takes⟩ := held field listed
      simp only [Takes, given] at takes
      exact ⟨scalar, takes.1, takes.2, value⟩
    · intro field listed other given
      obtain ⟨scalar, value, takes⟩ := held field listed
      simp only [Takes, given, Rule.value?] at takes
      exact ⟨scalar, takes, value⟩
    · intro field listed other listed' within within'
      obtain ⟨more, rfl⟩ := second.grows
      rw [names_append] at names
      have there : field.name ∈ middle.names :=
        semantic.mem_iff.mpr (List.mem_map_of_mem (mem_ofTier listed within))
      have present : other.name ∈ middle.names ++ Entries.names more :=
        names.mem_iff.mpr (List.mem_map_of_mem listed')
      rcases List.mem_append.mp present with before | behind
      · obtain ⟨source, listed'', named, visible⟩ := lower.known _ before
        obtain rfl := eq_of_name distinct listed'' listed' named
        exact absurd ⟨rfl, within'⟩ visible
      · exact Entries.precedes_append there behind
    · intro field listed other given
      exact sound.behind field listed (names.mem_iff.mpr (List.mem_map_of_mem listed)) other given
  · obtain ⟨e, failed, -⟩ := failed
    rw [done] at failed
    cases failed

theorem Settled.mono (sub : fields ⊆ others) (settled : Settled tree fields field) :
    Settled tree others field := by
  induction settled with
  | token given reads fits => exact .token given reads fits
  | constant given => exact .constant given
  | copy given listed visible settled ih => exact .copy given (sub listed) visible ih

theorem Solution.unique (one : Solution tree fields resolved) (another : Solution tree others found)
    (sub : fields ⊆ others) (settled : Settled tree fields field) (listed : field ∈ fields) :
    found.value? field.name = resolved.value? field.name := by
  induction settled with
  | @token field path kind scalar given reads fits =>
      obtain ⟨first, reads', -, value⟩ := one.token field listed path kind given
      obtain ⟨second, reads'', -, value'⟩ := another.token field (sub listed) path kind given
      cases reads'.symm.trans reads''
      rw [value, value']
  | @constant field x given =>
      rw [one.constant field listed x given, another.constant field (sub listed) x given]
  | @copy field source given listed' visible settled ih =>
      obtain ⟨first, copied, value⟩ := one.copy field listed _ given
      obtain ⟨second, copied', value'⟩ := another.copy field (sub listed) _ given
      rw [value, value', ← copied, ← copied', ih listed']

theorem exists_resolveFields_iff (tree : Tree) (distinct : (fields.map Field.name).Nodup) :
    (∃ resolved, resolveFields tree fields = .ok resolved) ↔
      ∀ field ∈ fields, Settled tree fields field := by
  constructor
  · rintro ⟨resolved, done⟩ field listed
    obtain ⟨sound, solution⟩ := solution_of_ok distinct done
    exact sound.settled field listed (solution.names.mem_iff.mpr (List.mem_map_of_mem listed))
  · intro settled
    rcases resolveFields_cases tree distinct with
      ⟨_, found, done, -⟩ | ⟨e, -, _, field, _, rows', -, missing, -⟩
    · exact ⟨found, done⟩
    · have listed : field ∈ phased fields := rows' ▸ List.mem_append_right _ List.mem_cons_self
      exact absurd (settled field (mem_phased.mp listed)) missing

theorem settled_iff_of_perm (same : others.Perm fields) :
    (∀ field ∈ others, Settled tree others field) ↔ ∀ field ∈ fields, Settled tree fields field := by
  constructor
  · exact fun settled field listed => (settled field (same.mem_iff.mpr listed)).mono same.subset
  · exact fun settled field listed => (settled field (same.mem_iff.mp listed)).mono same.symm.subset

theorem value?_resolveFields_of_perm (distinct : (fields.map Field.name).Nodup)
    (same : others.Perm fields) (done : resolveFields tree fields = .ok resolved)
    (done' : resolveFields tree others = .ok found) (name : String) :
    found.value? name = resolved.value? name := by
  have distinct' : (others.map Field.name).Nodup := (same.map Field.name).nodup_iff.mpr distinct
  obtain ⟨sound, one⟩ := solution_of_ok distinct done
  obtain ⟨-, another⟩ := solution_of_ok distinct' done'
  by_cases named : name ∈ fields.map Field.name
  · obtain ⟨field, listed, rfl⟩ := List.mem_map.mp named
    have settled := sound.settled field listed (one.names.mem_iff.mpr named)
    exact one.unique another same.symm.subset settled listed
  · have absent : name ∉ resolved.names := fun present => named (one.names.mem_iff.mp present)
    have absent' : name ∉ found.names := fun present =>
      named ((same.map Field.name).mem_iff.mp (another.names.mem_iff.mp present))
    rw [Entries.value?_eq_none.mpr absent, Entries.value?_eq_none.mpr absent']

/--
Where the fields of a table have names of their own, resolving them gives the least solution: it succeeds
exactly if every field has a value, and then each one stands behind what it is taken from, so the order
of the rows does not matter. Otherwise it reports the first row that has none, in the phase of the table
that comes first.
-/
theorem resolveFields_spec (tree : Tree) (fields : List Field)
    (distinct : (fields.map Field.name).Nodup) :
    ((∃ resolved, resolveFields tree fields = .ok resolved) ↔
      ∀ field ∈ fields, Settled tree fields field) ∧
    (∀ resolved, resolveFields tree fields = .ok resolved → Solution tree fields resolved) ∧
    (∀ others, others.Perm fields →
      ((∃ found, resolveFields tree others = .ok found) ↔
        ∃ resolved, resolveFields tree fields = .ok resolved) ∧
      ∀ resolved found, resolveFields tree fields = .ok resolved →
        resolveFields tree others = .ok found → ∀ name, found.value? name = resolved.value? name) ∧
    ∀ e, resolveFields tree fields = .error e → FirstUnsettled tree fields (phased fields) e := by
  refine ⟨exists_resolveFields_iff tree distinct,
    fun resolved done => (solution_of_ok distinct done).2, ?_, ?_⟩
  · intro others same
    have distinct' : (others.map Field.name).Nodup := (same.map Field.name).nodup_iff.mpr distinct
    refine ⟨?_, fun _ _ done done' => value?_resolveFields_of_perm distinct same done done'⟩
    rw [exists_resolveFields_iff tree distinct', exists_resolveFields_iff tree distinct]
    exact settled_iff_of_perm same
  · intro e failed
    rcases resolveFields_cases tree distinct with ⟨_, found, done, -⟩ | ⟨cause, failed', first⟩
    · rw [failed] at done
      cases done
    · rw [failed] at failed'
      cases failed'
      exact first

def ink : Tree := ⟨[("Ink", .object [(valueKey, .text "#000000")])]⟩

/-- Copies that stand before what they copy. -/
def backward : List Field :=
  [.copy "component.b" "semantic.a", .copy "semantic.a" "semantic.ink", .text "semantic.ink" "Ink"]

def unfounded : List Field := [.copy "component.c" "component.c", .copy "semantic.a" "component.c"]

theorem settled_backward : ∀ field ∈ backward, Settled ink backward field := by
  have first : Settled ink backward (.text "semantic.ink" "Ink") :=
    .token rfl (show ink.resolveAt "Ink" = .ok (.text "#000000") by cbv) rfl
  have second : Settled ink backward (.copy "semantic.a" "semantic.ink") :=
    .copy rfl (by simp [backward]) (by decide) first
  have third : Settled ink backward (.copy "component.b" "semantic.a") :=
    .copy rfl (by simp [backward]) (by decide) second
  simp only [backward, List.forall_mem_cons]
  exact ⟨third, second, first, List.forall_mem_nil _⟩

theorem resolveFields_unfounded :
    resolveFields ink unfounded = .error (.unresolvedDependency "semantic.a" "component.c") := by
  have upper : (Field.copy "component.c" "component.c").tier = .component := by decide
  have lower : (Field.copy "semantic.a" "component.c").tier = .semantic := by decide
  have own : unfounded.filter (fun field => field.tier = .semantic) =
      [.copy "semantic.a" "component.c"] := by simp [unfounded, upper, lower]
  have stuck : settle [("semantic.a", .copy "component.c")] [] =
      .error (.unresolvedDependency "semantic.a" "component.c") := by
    rw [settle]
    rfl
  simp only [resolveFields, resolveTier, own]
  simp [resolveSourced, Field.rule?, Field.copy, stuck]

theorem resolveFields_backward :
    (backward.map Field.name).Nodup ∧
    (∃ resolved, resolveFields ink backward = .ok resolved ∧ Solution ink backward resolved) ∧
    (unfounded.map Field.name).Nodup ∧
    resolveFields ink unfounded = .error (.unresolvedDependency "semantic.a" "component.c") ∧
    FirstUnsettled ink unfounded (phased unfounded)
      (.unresolvedDependency "semantic.a" "component.c") := by
  have failed := resolveFields_unfounded
  obtain ⟨succeeds, solves, -⟩ := resolveFields_spec ink backward (by decide)
  obtain ⟨resolved, done⟩ := succeeds.mpr settled_backward
  obtain ⟨-, -, -, reports⟩ := resolveFields_spec ink unfounded (by decide)
  exact ⟨by decide, ⟨resolved, done, solves resolved done⟩, by decide, failed, reports _ failed⟩

end DesignTokens.Theme
