import DesignTokens.Proofs.Theme.Resolved

/-!
Derived fields are settled in passes. Each value comes from the tree or from values before it, so what
passes add is a run of single steps, and a pass that adds nothing leaves only fields that nothing
there can settle.
-/

namespace DesignTokens.Theme

open Token

/--
Fields that have a value: the token gives one of the right kind, it is a constant, or the field copied
has one. What a semantic field copies is no component.
-/
inductive Settled (tree : Tree) (fields : List Field) : Field → Prop
  | token {field : Field} {path : String} {kind : Kind} {scalar : Scalar}
      (given : field.source = .token path kind) (reads : tree.resolveAt path = .ok scalar)
      (fits : scalar.kind = kind) : Settled tree fields field
  | constant {field : Field} {x : Binary64} (given : field.source = .derived (.constant x)) :
      Settled tree fields field
  | copy {field source : Field} (given : field.source = .derived (.copy source.name))
      (listed : source ∈ fields)
      (visible : ¬ (field.tier = .semantic ∧ source.tier = .component))
      (settled : Settled tree fields source) : Settled tree fields field

def Takes (tree : Tree) (resolved : Entries Scalar) (field : Field) (scalar : Scalar) : Prop :=
  match field.source with
  | .token path kind => tree.resolveAt path = .ok scalar ∧ scalar.kind = kind
  | .derived rule => rule.value? resolved = some scalar

inductive Run (tree : Tree) (fields : List Field) (tier : Tier) (start : Entries Scalar) :
    Entries Scalar → Prop
  | refl : Run tree fields tier start start
  | step {resolved : Entries Scalar} {field : Field} {scalar : Scalar}
      (earlier : Run tree fields tier start resolved) (listed : field ∈ fields)
      (within : field.tier = tier) (fresh : field.name ∉ resolved.names)
      (takes : Takes tree resolved field scalar) :
      Run tree fields tier start (resolved ++ [(field.name, scalar)])

structure Sound (tree : Tree) (fields : List Field) (tier : Tier) (resolved : Entries Scalar) :
    Prop where
  known : ∀ name ∈ resolved.names,
    ∃ field ∈ fields, field.name = name ∧ ¬ (tier = .semantic ∧ field.tier = .component)
  settled : ∀ field ∈ fields, field.name ∈ resolved.names → Settled tree fields field
  takes : ∀ field ∈ fields, ∀ scalar, resolved.value? field.name = some scalar →
    Takes tree resolved field scalar
  behind : ∀ field ∈ fields, field.name ∈ resolved.names →
    ∀ other, field.source = .derived (.copy other) → resolved.Precedes other field.name

variable {tree : Tree} {own fields : List Field} {tier : Tier} {field : Field} {scalar : Scalar}
  {start resolved found : Entries Scalar} {pending : List (String × Rule)}

theorem names_append (resolved others : Entries Scalar) :
    Entries.names (resolved ++ others) = resolved.names ++ others.names := List.map_append

theorem Takes.append (takes : Takes tree resolved field scalar) (others : Entries Scalar) :
    Takes tree (resolved ++ others) field scalar := by
  cases given : field.source with
  | token path kind => simpa only [Takes, given] using takes
  | derived rule =>
      simp only [Takes, given] at takes ⊢
      cases rule with
      | constant x => exact takes
      | copy other => exact Entries.value?_append_of_some others takes

theorem Sound.settled_of_takes (sound : Sound tree fields tier resolved) (within : field.tier = tier)
    (takes : Takes tree resolved field scalar) : Settled tree fields field := by
  cases given : field.source with
  | token path kind =>
      simp only [Takes, given] at takes
      exact .token given takes.1 takes.2
  | derived rule =>
      simp only [Takes, given] at takes
      cases rule with
      | constant x => exact .constant given
      | copy other =>
          have there : other ∈ resolved.names := Entries.mem_names_of_value? takes
          obtain ⟨source, listed, rfl, visible⟩ := sound.known other there
          exact .copy given listed (within ▸ visible) (sound.settled source listed there)

/-- The step lemma: a field with a value of its own joins sound values. -/
theorem Sound.step (distinct : (fields.map Field.name).Nodup)
    (sound : Sound tree fields tier resolved) (listed : field ∈ fields) (within : field.tier = tier)
    (fresh : field.name ∉ resolved.names) (takes : Takes tree resolved field scalar) :
    Sound tree fields tier (resolved ++ [(field.name, scalar)]) := by
  have names : Entries.names (resolved ++ [(field.name, scalar)]) = resolved.names ++ [field.name] :=
    names_append ..
  have here : ∀ other ∈ fields, other.name ∈ resolved.names ++ [field.name] →
      other.name ∈ resolved.names ∨ other = field := by
    intro other listed' present
    rcases List.mem_append.mp present with earlier | new
    · exact .inl earlier
    · exact .inr (eq_of_name distinct listed' listed (List.mem_singleton.mp new))
  constructor
  · rw [names]
    intro name present
    rcases List.mem_append.mp present with earlier | new
    · exact sound.known name earlier
    · refine ⟨field, listed, (List.mem_singleton.mp new).symm, ?_⟩
      rintro ⟨rfl, other⟩
      rw [within] at other
      cases other
  · rw [names]
    intro other listed' present
    rcases here other listed' present with earlier | rfl
    · exact sound.settled other listed' earlier
    · exact sound.settled_of_takes within takes
  · intro other listed' value held
    rcases here other listed' (names ▸ Entries.mem_names_of_value? held) with earlier | rfl
    · cases before : resolved.value? other.name with
      | none => exact absurd earlier (Entries.value?_eq_none.mp before)
      | some old =>
          rw [Entries.value?_append_of_some _ before] at held
          cases held
          exact (sound.takes other listed' value before).append _
    · rw [Entries.value?_append, Entries.value?_eq_none.mpr fresh] at held
      have same : scalar = value := by simpa [Entries.value?] using held
      exact same ▸ takes.append _
  · intro other listed' present target given
    rcases here other listed' (names ▸ present) with earlier | rfl
    · exact (sound.behind other listed' earlier target given).append _
    · simp only [Takes, given] at takes
      exact Entries.precedes_append (Entries.mem_names_of_value? takes) List.mem_cons_self

theorem Run.sound (distinct : (fields.map Field.name).Nodup) (run : Run tree fields tier start found)
    (sound : Sound tree fields tier start) : Sound tree fields tier found := by
  induction run with
  | refl => exact sound
  | step earlier listed within fresh takes ih => exact ih.step distinct listed within fresh takes

theorem Sound.later (sound : Sound tree fields .semantic resolved) :
    Sound tree fields .component resolved where
  known := by
    intro name present
    obtain ⟨field, listed, named, -⟩ := sound.known name present
    exact ⟨field, listed, named, fun other => nomatch other.1⟩
  settled := sound.settled
  takes := sound.takes
  behind := sound.behind

theorem sound_nil : Sound tree fields tier [] where
  known := fun _ present => nomatch present
  settled := fun _ _ present => nomatch present
  takes := fun _ _ _ held => nomatch held
  behind := fun _ _ present => nomatch present

theorem Run.trans (first : Run tree fields tier start resolved)
    (second : Run tree fields tier resolved found) : Run tree fields tier start found := by
  induction second with
  | refl => exact first
  | step earlier listed within fresh takes ih => exact .step ih listed within fresh takes

theorem Run.grows (run : Run tree fields tier start found) : start <+: found := by
  induction run with
  | refl => exact List.prefix_rfl
  | step earlier listed within fresh takes ih => exact ih.trans (List.prefix_append ..)

theorem Run.names_subset (run : Run tree fields tier start found) : start.names ⊆ found.names :=
  (run.grows.map Prod.fst).subset

theorem Run.single (listed : field ∈ fields) (within : field.tier = tier)
    (fresh : field.name ∉ resolved.names) (takes : Takes tree resolved field scalar) :
    Run tree fields tier resolved (resolved ++ [(field.name, scalar)]) :=
  .step .refl listed within fresh takes

theorem Fresh.head {name : String} {names : List String} (fresh : Fresh resolved (name :: names)) :
    name ∉ resolved.names := Entries.not_mem_of_nodup_append_cons fresh

theorem run_resolveSourced (within : ∀ field ∈ own, field ∈ fields ∧ field.tier = tier)
    (fresh : Fresh resolved ((own.filter Field.isSourced).map Field.name))
    (done : resolveSourced tree own resolved = .ok found) : Run tree fields tier resolved found := by
  induction own generalizing resolved with
  | nil =>
      cases done
      exact .refl
  | cons field rest ih =>
      obtain ⟨⟨listed, tiers⟩, within'⟩ := List.forall_mem_cons.mp within
      cases given : field.source with
      | derived rule =>
          have skipped : field.isSourced = false := by simp [Field.isSourced, given]
          rw [List.filter_cons_of_neg (by simp [skipped])] at fresh
          simp only [resolveSourced, given] at done
          exact ih within' fresh done
      | token path kind =>
          have counted : field.isSourced = true := by simp [Field.isSourced, given]
          rw [List.filter_cons_of_pos counted] at fresh
          cases reads : tree.resolveAt path with
          | error e => simp [resolveSourced, given, reads] at done
          | ok scalar =>
              simp only [resolveSourced, given, reads, fresh.put] at done
              split at done
              · rename_i fits
                have takes : Takes tree resolved field scalar := by
                  simpa only [Takes, given] using And.intro reads fits
                exact (Run.single listed tiers fresh.head takes).trans
                  (ih within' (fresh.next scalar) done)
              · cases done

def Pending (fields : List Field) (tier : Tier) (pending : List (String × Rule)) : Prop :=
  ∀ pair ∈ pending, ∃ field ∈ fields, field.tier = tier ∧ field.name = pair.1 ∧
    field.source = .derived pair.2

theorem run_settlePass (rules : Pending fields tier pending)
    (fresh : Fresh resolved (pending.map Prod.fst)) :
    Run tree fields tier resolved (settlePass pending resolved).2 := by
  induction pending generalizing resolved with
  | nil => exact .refl
  | cons head rest ih =>
      obtain ⟨name, rule⟩ := head
      obtain ⟨⟨field, listed, within, rfl, given⟩, rules'⟩ := List.forall_mem_cons.mp rules
      cases ready : rule.value? resolved with
      | some scalar =>
          have takes : Takes tree resolved field scalar := by simpa only [Takes, given] using ready
          simp only [settlePass, ready, fresh.put]
          exact (Run.single listed within fresh.head takes).trans (ih rules' (fresh.next scalar))
      | none =>
          simp only [settlePass, ready]
          exact ih rules' (fresh.sublist (List.sublist_cons_self ..))

theorem names_subset_settlePass (pending : List (String × Rule)) (resolved : Entries Scalar) :
    resolved.names ⊆ (settlePass pending resolved).2.names := by
  induction pending generalizing resolved with
  | nil => exact List.Subset.refl _
  | cons head rest ih =>
      obtain ⟨name, rule⟩ := head
      cases ready : rule.value? resolved with
      | some scalar =>
          simp only [settlePass, ready]
          refine List.Subset.trans ?_ (ih _)
          rw [Entries.names_put]
          split
          · exact List.Subset.refl _
          · exact List.subset_append_left ..
      | none =>
          simp only [settlePass, ready]
          exact ih resolved

theorem settlePass_left (fresh : Fresh resolved (pending.map Prod.fst)) :
    (settlePass pending resolved).1 =
      pending.filter fun pair => pair.1 ∉ (settlePass pending resolved).2.names := by
  induction pending generalizing resolved with
  | nil => rfl
  | cons head rest ih =>
      obtain ⟨name, rule⟩ := head
      have apart := (names_settlePass fresh).nodup_iff.mpr fresh
      cases ready : rule.value? resolved with
      | some scalar =>
          have there : name ∈ (settlePass rest (resolved ++ [(name, scalar)])).2.names :=
            names_subset_settlePass rest _ (by simp [Entries.names])
          simp only [settlePass, ready, fresh.put]
          rw [ih (fresh.next scalar), List.filter_cons_of_neg (by simpa using there)]
      | none =>
          simp only [settlePass, ready] at apart ⊢
          have missing : name ∉ (settlePass rest resolved).2.names :=
            Entries.not_mem_of_nodup_append_cons apart
          rw [ih (fresh.sublist (List.sublist_cons_self ..)),
            List.filter_cons_of_pos (by simpa using missing)]

theorem settlePass_length_le (pending : List (String × Rule)) (resolved : Entries Scalar) :
    (settlePass pending resolved).1.length ≤ pending.length := by
  induction pending generalizing resolved with
  | nil => exact Nat.le_refl _
  | cons head rest ih =>
      obtain ⟨name, rule⟩ := head
      cases ready : rule.value? resolved with
      | some scalar =>
          simp only [settlePass, ready, List.length_cons]
          exact Nat.le_succ_of_le (ih _)
      | none =>
          simp only [settlePass, ready, List.length_cons]
          exact Nat.succ_le_succ (ih resolved)

/-- A pass that leaves as much as it was given has added nothing, and could not. -/
theorem settlePass_stuck (stuck : ¬ (settlePass pending resolved).1.length < pending.length) :
    (settlePass pending resolved).2 = resolved ∧ ∀ pair ∈ pending, pair.2.value? resolved = none := by
  induction pending generalizing resolved with
  | nil => exact ⟨rfl, List.forall_mem_nil _⟩
  | cons head rest ih =>
      obtain ⟨name, rule⟩ := head
      cases ready : rule.value? resolved with
      | some scalar =>
          simp only [settlePass, ready, List.length_cons] at stuck
          exact absurd (Nat.lt_succ_of_le (settlePass_length_le rest _)) stuck
      | none =>
          simp only [settlePass, ready, List.length_cons, Nat.succ_lt_succ_iff] at stuck ⊢
          obtain ⟨same, none⟩ := ih stuck
          exact ⟨same, List.forall_mem_cons.mpr ⟨ready, none⟩⟩

/--
The passes end where nothing that is left can be settled. They succeed if nothing is left, and otherwise
report the first of what is.
-/
theorem settle_eq (tree : Tree) (rules : Pending fields tier pending)
    (fresh : Fresh resolved (pending.map Prod.fst)) :
    ∃ found, Run tree fields tier resolved found ∧
      (∀ pair ∈ pending, pair.1 ∉ found.names → pair.2.value? found = none) ∧
      settle pending resolved =
        match pending.find? fun pair => pair.1 ∉ found.names with
        | none => .ok found
        | some pair => .error (.unresolvedDependency pair.1 pair.2.dependency) := by
  induction pending, resolved using settle.induct with
  | case1 resolved => exact ⟨resolved, .refl, List.forall_mem_nil _, by rw [settle]; rfl⟩
  | case2 resolved name rule rest next fewer ih =>
      have run : Run tree fields tier resolved next.2 := run_settlePass rules fresh
      have left : next.1 = _ := settlePass_left fresh
      have moved := names_settlePass fresh
      have rules' : Pending fields tier next.1 := by
        intro pair present
        rw [left] at present
        exact rules pair ((List.mem_filter.mp present).1)
      obtain ⟨found, later, closed, ends⟩ := ih rules' (moved.nodup_iff.mpr fresh)
      refine ⟨found, run.trans later, ?_, ?_⟩
      · intro pair present missing
        apply closed pair _ missing
        rw [left, List.mem_filter]
        exact ⟨present, by simpa using fun held => missing (later.names_subset held)⟩
      · rw [settle, dif_pos fewer, ends, left, List.find?_filter]
        have same : (fun pair : String × Rule =>
              decide (pair.1 ∉ next.2.names ∧ pair.1 ∉ found.names)) =
            fun pair => decide (pair.1 ∉ found.names) := by
          funext pair
          rw [decide_eq_decide, and_iff_right_iff_imp]
          exact fun missing held => missing (later.names_subset held)
        simp only [decide_eq_true_eq]
        rw [same]
  | case3 resolved name rule rest next stuck =>
      obtain ⟨-, none⟩ := settlePass_stuck stuck
      refine ⟨resolved, .refl, fun pair present _ => none pair present, ?_⟩
      rw [settle, dif_neg stuck, List.find?_cons_of_pos (by simpa using fresh.head)]

end DesignTokens.Theme
