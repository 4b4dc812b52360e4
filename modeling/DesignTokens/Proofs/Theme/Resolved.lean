import DesignTokens.Proofs.Theme.Arranged

/-!
The names that resolution gives values to. Where the fields of a table have names of their own, every
phase adds the names of its fields to those before it, and in the end each field is there once.
-/

namespace DesignTokens.Theme

open Token

variable {tree : Tree} {own fields : List Field} {resolved found : Entries Scalar} {tier : Tier}
  {pending : List (String × Rule)}

theorem names_resolveSourced
    (fresh : Fresh resolved ((own.filter Field.isSourced).map Field.name))
    (done : resolveSourced tree own resolved = .ok found) :
    found.names = resolved.names ++ (own.filter Field.isSourced).map Field.name := by
  induction own generalizing resolved with
  | nil =>
      cases done
      simp
  | cons field rest ih =>
      cases given : field.source with
      | derived rule =>
          have skipped : field.isSourced = false := by simp [Field.isSourced, given]
          rw [List.filter_cons_of_neg (by simp [skipped])] at fresh ⊢
          simp only [resolveSourced, given] at done
          exact ih fresh done
      | token path kind =>
          have counted : field.isSourced = true := by simp [Field.isSourced, given]
          rw [List.filter_cons_of_pos counted] at fresh ⊢
          cases reads : tree.resolveAt path with
          | error e => simp [resolveSourced, given, reads] at done
          | ok scalar =>
              simp only [resolveSourced, given, reads, fresh.put] at done
              split at done
              · rw [ih (fresh.next scalar) done]
                simp [Entries.names]
              · cases done

theorem names_settlePass (fresh : Fresh resolved (pending.map Prod.fst)) :
    ((settlePass pending resolved).2.names ++ (settlePass pending resolved).1.map Prod.fst).Perm
      (resolved.names ++ pending.map Prod.fst) := by
  induction pending generalizing resolved with
  | nil => exact .refl _
  | cons head rest ih =>
      obtain ⟨field, rule⟩ := head
      cases ready : rule.value? resolved with
      | some scalar =>
          have later := ih (fresh.next scalar)
          simp only [settlePass, ready, fresh.put]
          simpa [Entries.names] using later
      | none =>
          have later := ih (fresh.sublist (List.sublist_cons_self ..))
          simp only [settlePass, ready, List.map_cons]
          exact List.perm_middle.trans ((later.cons field).trans List.perm_middle.symm)

theorem names_settle (fresh : Fresh resolved (pending.map Prod.fst))
    (done : settle pending resolved = .ok found) :
    found.names.Perm (resolved.names ++ pending.map Prod.fst) := by
  induction pending, resolved using settle.induct with
  | case1 resolved =>
      rw [settle] at done
      cases done
      simp
  | case2 resolved field rule rest next fewer ih =>
      have moved := names_settlePass fresh
      rw [settle, dif_pos fewer] at done
      exact (ih (moved.nodup_iff.mpr fresh) done).trans moved
  | case3 resolved field rule rest next stuck =>
      rw [settle, dif_neg stuck] at done
      cases done

theorem names_rules (own : List Field) :
    (own.filterMap Field.rule?).map Prod.fst =
      (own.filter fun field => !field.isSourced).map Field.name := by
  induction own with
  | nil => rfl
  | cons field rest ih =>
      cases given : field.source <;>
        simp [Field.rule?, Field.isSourced, given, ih]

theorem names_resolveTier (fresh : Fresh resolved ((ofTier fields tier).map Field.name))
    (done : resolveTier tree fields tier resolved = .ok found) :
    found.names.Perm (resolved.names ++ (ofTier fields tier).map Field.name) := by
  rw [ofTier, List.map_append, ← names_rules] at fresh ⊢
  cases first : resolveSourced tree (fields.filter fun field => field.tier = tier) resolved with
  | error e => simp [resolveTier, first] at done
  | ok middle =>
      simp only [resolveTier, first] at done
      have sourced := names_resolveSourced (fresh.sublist (List.sublist_append_left ..)) first
      rw [← List.append_assoc, ← sourced]
      refine names_settle ?_ done
      rw [Fresh, sourced, List.append_assoc]
      exact fresh

theorem names_resolveFields (distinct : (fields.map Field.name).Nodup)
    (done : resolveFields tree fields = .ok found) :
    found.names.Perm (fields.map Field.name) := by
  have phases := (phased_perm fields).map Field.name
  have fresh : Fresh [] ((phased fields).map Field.name) := phases.nodup_iff.mpr distinct
  rw [phased, List.map_append] at fresh phases
  cases first : resolveTier tree fields .semantic [] with
  | error e => simp [resolveFields, first] at done
  | ok middle =>
      simp only [resolveFields, first] at done
      have semantic := names_resolveTier (fresh.sublist (List.sublist_append_left ..)) first
      have whole := semantic.append_right ((ofTier fields .component).map Field.name)
      have component := names_resolveTier (whole.nodup_iff.mpr fresh) done
      exact (component.trans whole).trans phases

end DesignTokens.Theme
