import DesignTokens.Proofs.Entries
import DesignTokens.Token.Resolver

/-! What resolving all tokens of a tree gives: each listed path with what it resolves to alone. -/

namespace DesignTokens.Token.Tree

variable {tree : Tree} {text : String} {scalar : Scalar}

def Settled (tree : Tree) (resolved : Entries Scalar) : Prop :=
  ∀ text scalar, (text, scalar) ∈ resolved → tree.resolveAt text = .ok scalar

theorem Settled.put {resolved : Entries Scalar} (settled : tree.Settled resolved)
    (reads : tree.resolveAt text = .ok scalar) : tree.Settled (resolved.put text scalar) := by
  intro other value present
  rcases Entries.of_mem_put present with ⟨rfl, rfl⟩ | before
  · exact reads
  · exact settled other value before

theorem mem_resolvePaths {paths : List String} {met resolved : Entries Scalar}
    (settled : tree.Settled met) (done : tree.resolvePaths paths met = .ok resolved) :
    (text, scalar) ∈ resolved ↔
      (text, scalar) ∈ met ∨ (text ∈ paths ∧ tree.resolveAt text = .ok scalar) := by
  induction paths generalizing met with
  | nil =>
      simp only [resolvePaths, Except.ok.injEq] at done
      subst done
      simp
  | cons path rest ih =>
      rw [resolvePaths] at done
      cases reads : tree.resolveAt path with
      | error e => simp [reads] at done
      | ok first =>
          simp only [reads] at done
          rw [ih (settled.put reads) done]
          constructor
          · intro held
            rcases held with now | ⟨later, same⟩
            · rcases Entries.of_mem_put now with ⟨rfl, rfl⟩ | before
              · exact .inr ⟨List.mem_cons_self, reads⟩
              · exact .inl before
            · exact .inr ⟨List.mem_cons_of_mem path later, same⟩
          · intro held
            rcases held with before | ⟨listed, same⟩
            · by_cases again : text = path
              · subst again
                rw [settled text scalar before] at reads
                cases reads
                exact .inl (Entries.mem_put_self text scalar met)
              · exact .inl (Entries.mem_put_of_ne again before)
            · rcases List.mem_cons.mp listed with rfl | later
              · rw [same] at reads
                cases reads
                exact .inl (Entries.mem_put_self text scalar met)
              · exact .inr ⟨later, same⟩

theorem exists_resolvePaths {paths : List String} {met : Entries Scalar} :
    (∃ resolved, tree.resolvePaths paths met = .ok resolved) ↔
      ∀ text ∈ paths, ∃ scalar, tree.resolveAt text = .ok scalar := by
  induction paths generalizing met with
  | nil => simp [resolvePaths]
  | cons path rest ih =>
      rw [resolvePaths, List.forall_mem_cons]
      cases reads : tree.resolveAt path with
      | error e => simp
      | ok scalar => simpa using ih

/-- The first path that does not resolve, with its own error. -/
theorem resolvePaths_eq_error {paths : List String} {met : Entries Scalar} {e : TokenError} :
    tree.resolvePaths paths met = .error e ↔ ∃ before text after, paths = before ++ text :: after ∧
      (∀ earlier ∈ before, ∃ scalar, tree.resolveAt earlier = .ok scalar) ∧
      tree.resolveAt text = .error e := by
  induction paths generalizing met with
  | nil => simp [resolvePaths]
  | cons path rest ih =>
      rw [resolvePaths]
      cases reads : tree.resolveAt path with
      | error cause =>
          dsimp only
          constructor
          · intro failed
            cases failed
            exact ⟨[], path, rest, rfl, List.forall_mem_nil _, reads⟩
          · rintro ⟨before, text, after, cut, fine, fails⟩
            rcases List.cons_eq_append_iff.mp cut with ⟨rfl, same⟩ | ⟨others, rfl, -⟩
            · obtain ⟨rfl, -⟩ := List.cons.inj same
              rw [reads] at fails
              cases fails
              rfl
            · obtain ⟨scalar, read⟩ := fine path List.mem_cons_self
              rw [reads] at read
              cases read
      | ok scalar =>
          dsimp only
          rw [ih]
          constructor
          · rintro ⟨before, text, after, rfl, fine, fails⟩
            exact ⟨path :: before, text, after, rfl,
              List.forall_mem_cons.mpr ⟨⟨scalar, reads⟩, fine⟩, fails⟩
          · rintro ⟨before, text, after, cut, fine, fails⟩
            rcases List.cons_eq_append_iff.mp cut with ⟨rfl, same⟩ | ⟨others, rfl, rest'⟩
            · obtain ⟨rfl, -⟩ := List.cons.inj same
              rw [reads] at fails
              cases fails
            · exact ⟨others, text, after, rest', (List.forall_mem_cons.mp fine).2, fails⟩

theorem nodup_names_resolvePaths {paths : List String} {met resolved : Entries Scalar}
    (distinct : met.names.Nodup) (done : tree.resolvePaths paths met = .ok resolved) :
    resolved.names.Nodup := by
  induction paths generalizing met with
  | nil =>
      cases done
      exact distinct
  | cons path rest ih =>
      rw [resolvePaths] at done
      split at done
      · cases done
      · exact ih (Entries.nodup_names_put _ distinct) done

theorem names_resolvePaths {paths : List String} {met resolved : Entries Scalar}
    (fresh : (met.names ++ paths).Nodup) (done : tree.resolvePaths paths met = .ok resolved) :
    resolved.names = met.names ++ paths := by
  induction paths generalizing met with
  | nil =>
      cases done
      rw [List.append_nil]
  | cons path rest ih =>
      rw [resolvePaths] at done
      split at done
      · cases done
      · rename_i scalar reads
        have unmet : path ∉ met.names := Entries.not_mem_of_nodup_append_cons fresh
        have put : (met.put path scalar).names = met.names ++ [path] := by
          rw [Entries.names_put, if_neg unmet]
        have same : met.names ++ path :: rest = (met.put path scalar).names ++ rest := by
          rw [put, List.append_assoc, List.singleton_append]
        rw [same] at fresh ⊢
        exact ih fresh done

theorem mem_resolveAll {resolved : Entries Scalar} (done : tree.resolveAll = .ok resolved) :
    (text, scalar) ∈ resolved ↔ text ∈ tree.tokenPaths ∧ tree.resolveAt text = .ok scalar := by
  have nothing : tree.Settled [] := fun _ _ present => nomatch present
  rw [mem_resolvePaths nothing done]
  simp

theorem names_resolveAll_iff {resolved : Entries Scalar} (done : tree.resolveAll = .ok resolved) :
    resolved.names = tree.tokenPaths ↔ tree.tokenPaths.Nodup := by
  constructor
  · intro same
    have nothing : (Entries.names ([] : Entries Scalar)).Nodup := List.nodup_nil
    exact same ▸ nodup_names_resolvePaths nothing done
  · intro distinct
    exact names_resolvePaths distinct done

end DesignTokens.Token.Tree
