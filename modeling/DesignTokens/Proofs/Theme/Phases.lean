import DesignTokens.Proofs.Entries
import DesignTokens.Theme.Assembly

/-!
The phases in which fields are resolved: in each tier the fields that tokens give, then the derived
ones. A phase adds its values in order, or ends at the first field whose token fails it.
-/

namespace DesignTokens.Theme

open Token

def failure? (tree : Tree) (field : Field) : Option ThemeError :=
  match field.source with
  | .derived _ => none
  | .token path kind =>
      match tree.resolveAt path with
      | .error e => some (.token e)
      | .ok scalar =>
          if scalar.kind = kind then none
          else some (.typeMismatch field.name path kind scalar.kind)

def ofTier (fields : List Field) (tier : Tier) : List Field :=
  let own := fields.filter fun field => field.tier = tier
  own.filter Field.isSourced ++ own.filter fun field => !field.isSourced

def valued (value : Field → Scalar) (fields : List Field) : Entries Scalar :=
  fields.map fun field => (field.name, value field)

def Given (tree : Tree) (value : Field → Scalar) (field : Field) : Prop :=
  ∀ path kind, field.source = .token path kind →
    tree.resolveAt path = .ok (value field) ∧ (value field).kind = kind

def Ready (resolved : Entries Scalar) (value : Field → Scalar) (field : Field) : Prop :=
  ∀ rule, field.source = .derived rule → rule.value? resolved = some (value field)

variable {tree : Tree} {own fields : List Field} {value : Field → Scalar}
  {resolved : Entries Scalar} {e : ThemeError}

theorem names_valued : (valued value fields).names = fields.map Field.name := by
  simp [valued, Entries.names]

theorem resolveSourced_eq_error (failed : own.findSome? (failure? tree) = some e) :
    resolveSourced tree own resolved = .error e := by
  induction own generalizing resolved with
  | nil => cases failed
  | cons field rest ih =>
      rw [List.findSome?_cons] at failed
      cases given : field.source with
      | derived rule =>
          have passed : failure? tree field = none := by simp [failure?, given]
          rw [passed] at failed
          simpa [resolveSourced, given] using ih failed
      | token path kind =>
          cases reads : tree.resolveAt path with
          | error cause =>
              have here : failure? tree field = some (.token cause) := by
                simp [failure?, given, reads]
              rw [here] at failed
              cases failed
              simp [resolveSourced, given, reads]
          | ok scalar =>
              by_cases same : scalar.kind = kind
              · have passed : failure? tree field = none := by simp [failure?, given, reads, same]
                rw [passed] at failed
                simpa [resolveSourced, given, reads, same] using ih failed
              · have here : failure? tree field =
                    some (.typeMismatch field.name path kind scalar.kind) := by
                  simp [failure?, given, reads, same]
                rw [here] at failed
                cases failed
                simp [resolveSourced, given, reads, same]

/-- Names that are still to come are not there yet, and each of them comes once. -/
def Fresh (resolved : Entries Scalar) (names : List String) : Prop :=
  (resolved.names ++ names).Nodup

theorem Fresh.put {name : String} {names : List String} (fresh : Fresh resolved (name :: names))
    (scalar : Scalar) : resolved.put name scalar = resolved ++ [(name, scalar)] :=
  Entries.put_of_fresh scalar (Entries.not_mem_of_nodup_append_cons fresh)

theorem Fresh.next {name : String} {names : List String} (fresh : Fresh resolved (name :: names))
    (scalar : Scalar) : Fresh (resolved ++ [(name, scalar)]) names := by
  simpa [Fresh, Entries.names] using fresh

theorem Fresh.sublist {names fewer : List String} (fresh : Fresh resolved names)
    (part : fewer.Sublist names) : Fresh resolved fewer :=
  List.Nodup.sublist (part.append_left _) fresh

theorem Fresh.behind {first second : List Field} (value : Field → Scalar)
    (fresh : Fresh resolved ((first ++ second).map Field.name)) :
    Fresh (resolved ++ valued value first) (second.map Field.name) := by
  simpa [Fresh, Entries.names, valued, Function.comp_def] using fresh

theorem resolveSourced_eq_ok (reads : ∀ field ∈ own, Given tree value field)
    (fresh : Fresh resolved ((own.filter Field.isSourced).map Field.name)) :
    resolveSourced tree own resolved =
      .ok (resolved ++ valued value (own.filter Field.isSourced)) := by
  induction own generalizing resolved with
  | nil => simp [resolveSourced, valued]
  | cons field rest ih =>
      have reads' := fun field later => reads field (List.mem_cons_of_mem _ later)
      cases given : field.source with
      | derived rule =>
          have skipped : field.isSourced = false := by simp [Field.isSourced, given]
          rw [List.filter_cons_of_neg (by simp [skipped])] at fresh ⊢
          simpa [resolveSourced, given] using ih reads' fresh
      | token path kind =>
          rcases reads field List.mem_cons_self path kind given with ⟨read, fits⟩
          have counted : field.isSourced = true := by simp [Field.isSourced, given]
          rw [List.filter_cons_of_pos counted] at fresh ⊢
          have later := ih reads' (fresh.next (value field))
          simp only [resolveSourced, given, read, fits, if_true, fresh.put]
          rw [later]
          simp [valued]

theorem Ready.append {field : Field} (ready : Ready resolved value field)
    (others : Entries Scalar) : Ready (resolved ++ others) value field := by
  intro rule given
  have found := ready rule given
  cases rule with
  | constant x => exact found
  | copy other => exact Entries.value?_append_of_some others found

theorem settlePass_eq
    (ready : ∀ field ∈ own, Ready resolved value field)
    (fresh : Fresh resolved ((own.filter fun field => !field.isSourced).map Field.name)) :
    settlePass (own.filterMap Field.rule?) resolved =
      ([], resolved ++ valued value (own.filter fun field => !field.isSourced)) := by
  induction own generalizing resolved with
  | nil => simp [settlePass, valued]
  | cons field rest ih =>
      cases given : field.source with
      | token path kind =>
          have skipped : field.rule? = none := by simp [Field.rule?, given]
          have counted : field.isSourced = true := by simp [Field.isSourced, given]
          rw [List.filter_cons_of_neg (by simp [counted])] at fresh ⊢
          rw [List.filterMap_cons_none skipped]
          exact ih (fun field later => ready field (List.mem_cons_of_mem _ later)) fresh
      | derived rule =>
          have here : field.rule? = some (field.name, rule) := by simp [Field.rule?, given]
          have counted : field.isSourced = false := by simp [Field.isSourced, given]
          rw [List.filter_cons_of_pos (by simp [counted])] at fresh ⊢
          have settled := ready field List.mem_cons_self rule given
          have later := ih
            (fun field later => (ready field (List.mem_cons_of_mem _ later)).append _)
            (fresh.next (value field))
          rw [List.filterMap_cons_some here]
          simp only [settlePass, settled, fresh.put]
          rw [later]
          simp [valued]

theorem settle_eq_ok
    (ready : ∀ field ∈ own, Ready resolved value field)
    (fresh : Fresh resolved ((own.filter fun field => !field.isSourced).map Field.name)) :
    settle (own.filterMap Field.rule?) resolved =
      .ok (resolved ++ valued value (own.filter fun field => !field.isSourced)) := by
  have pass := settlePass_eq ready fresh
  generalize own.filterMap Field.rule? = pending at pass ⊢
  cases pending with
  | nil =>
      simp only [settlePass, Prod.mk.injEq, true_and] at pass
      rw [settle, ← pass]
  | cons head rest =>
      rcases head with ⟨name, rule⟩
      rw [settle]
      simp [pass, settle]

/-- A tier whose fields only copy what was resolved before it. -/
theorem resolveTier_eq_ok {tier : Tier}
    (reads : ∀ field ∈ fields, field.tier = tier → Given tree value field)
    (ready : ∀ field ∈ fields, field.tier = tier → Ready resolved value field)
    (fresh : Fresh resolved ((ofTier fields tier).map Field.name)) :
    resolveTier tree fields tier resolved =
      .ok (resolved ++ valued value (ofTier fields tier)) := by
  have mine {field : Field} (member : field ∈ fields.filter fun field => field.tier = tier) :
      field ∈ fields ∧ field.tier = tier := by simpa using member
  have first := resolveSourced_eq_ok
    (fun field member => reads field (mine member).1 (mine member).2)
    (fresh.sublist ((List.sublist_append_left ..).map _))
  have second := settle_eq_ok
    (fun field member => (ready field (mine member).1 (mine member).2).append _)
    (fresh.behind value)
  simp only [resolveTier, first, second]
  simp [ofTier, valued, List.append_assoc]

theorem resolveTier_eq_error {tier : Tier}
    (failed : (fields.filter fun field => field.tier = tier).findSome? (failure? tree) = some e) :
    resolveTier tree fields tier resolved = .error e := by
  simp only [resolveTier, resolveSourced_eq_error failed]

end DesignTokens.Theme
