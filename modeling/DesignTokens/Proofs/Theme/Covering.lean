import DesignTokens.Proofs.Token.Covering
import DesignTokens.Theme.Assembly

/-!
Assembling from a tree that declares what another one declares. Fields ask for nothing but what tokens
resolve to, so the order of a tree, its metadata and its other tokens leave no trace in a theme.
-/

namespace DesignTokens.Theme

open Token

variable {tree other : Tree} {own fields : List Field} {resolved found : Entries Scalar}
  {tier : Tier} {name : String} {document : Document} {theme : Theme}

theorem resolveSourced_of_covers (covers : other.Covers tree)
    (done : resolveSourced tree own resolved = .ok found) :
    resolveSourced other own resolved = .ok found := by
  induction own generalizing resolved with
  | nil => exact done
  | cons field rest ih =>
      cases given : field.source with
      | derived rule =>
          simp only [resolveSourced, given] at done ⊢
          exact ih done
      | token path kind =>
          cases reads : tree.resolveAt path with
          | error e => simp [resolveSourced, given, reads] at done
          | ok scalar =>
              simp only [resolveSourced, given, reads, covers.resolveAt_of_ok reads] at done ⊢
              split at done
              · rename_i fits
                rw [if_pos fits]
                exact ih done
              · cases done

theorem resolveTier_of_covers (covers : other.Covers tree)
    (done : resolveTier tree fields tier resolved = .ok found) :
    resolveTier other fields tier resolved = .ok found := by
  cases first : resolveSourced tree (fields.filter fun field => field.tier = tier) resolved with
  | error e => simp [resolveTier, first] at done
  | ok middle =>
      simp only [resolveTier, first, resolveSourced_of_covers covers first] at done ⊢
      exact done

theorem resolveFields_of_covers (covers : other.Covers tree)
    (done : resolveFields tree fields = .ok found) : resolveFields other fields = .ok found := by
  cases first : resolveTier tree fields .semantic [] with
  | error e => simp [resolveFields, first] at done
  | ok middle =>
      simp only [resolveFields, first, resolveTier_of_covers covers first] at done ⊢
      exact resolveTier_of_covers covers done

theorem assembleDocument_of_covers (covers : other.Covers tree)
    (done : assembleDocument tree fields name = .ok document) :
    assembleDocument other fields name = .ok document := by
  cases first : resolveFields tree fields with
  | error e => simp [assembleDocument, first] at done
  | ok found =>
      simp only [assembleDocument, first, resolveFields_of_covers covers first] at done ⊢
      exact done

theorem assembleWith_of_covers (covers : other.Covers tree)
    (done : assembleWith tree fields name = .ok theme) :
    assembleWith other fields name = .ok theme := by
  cases first : assembleDocument tree fields name with
  | error e => simp [assembleWith, first] at done
  | ok document =>
      simp only [assembleWith, first, assembleDocument_of_covers covers first] at done ⊢
      exact done

/--
Scalars, cycles, documents and themes that a tree gives are those that every tree gives that declares
the same values, up to the order of entries, at the same paths.
-/
theorem covers_spec (covers : other.Covers tree) :
    (∀ text scalar, tree.resolveAt text = .ok scalar → other.resolveAt text = .ok scalar) ∧
    (∀ text met, tree.resolveAt text = .error (.cyclic met) →
      other.resolveAt text = .error (.cyclic met)) ∧
    ∀ fields name,
      (∀ document, assembleDocument tree fields name = .ok document →
        assembleDocument other fields name = .ok document) ∧
      ∀ theme, assembleWith tree fields name = .ok theme →
        assembleWith other fields name = .ok theme :=
  ⟨fun _ _ => covers.resolveAt_of_ok, fun _ _ => covers.resolveAt_of_cyclic,
    fun _ _ => ⟨fun _ => assembleDocument_of_covers covers, fun _ => assembleWith_of_covers covers⟩⟩

def inkAndLoop : Tree := ⟨[
  ("Ink", .object [(valueKey, .text "\x7bBlack\x7d")]),
  ("Loop", .object [(valueKey, .text "\x7bLoop\x7d")]),
  ("Black", .object [(valueKey, .object [("colorSpace", .text "srgb"), ("hex", .text "#000000")])])]⟩

/-- The same tokens in another order, beside a type, a description and a token more. -/
def inkAndLoopRearranged : Tree := ⟨[
  ("Black", .object [("$type", .text "color"),
    (valueKey, .object [("hex", .text "#000000"), ("colorSpace", .text "srgb")])]),
  ("White", .object [(valueKey, .text "#ffffff")]),
  ("Loop", .object [(valueKey, .text "\x7bLoop\x7d"), ("$description", .text "endless")]),
  ("Ink", .object [(valueKey, .text "\x7bBlack\x7d")])]⟩

theorem covers_inkAndLoop :
    inkAndLoopRearranged.Covers inkAndLoop ∧
    inkAndLoopRearranged.resolveAt "Ink" = .ok (.text "#000000") ∧
    inkAndLoopRearranged.resolveAt "Loop" = .error (.cyclic ["Loop", "Loop"]) ∧
    assembleDocument inkAndLoopRearranged [.text "semantic.ink" "Ink"] "Night" =
      .ok (.object [("name", .text "Night"), ("semantic", .object [("ink", .text "#000000")])]) := by
  have covers : inkAndLoopRearranged.Covers inkAndLoop := by
    refine .of_places ?_
    have listed : Tree.places inkAndLoop.toDocument = [["Ink"], ["Loop"], ["Black"]] := by cbv
    have ink : inkAndLoopRearranged.value? ⟨["Ink"]⟩ = some (.text "\x7bBlack\x7d") := by cbv
    have loop : inkAndLoopRearranged.value? ⟨["Loop"]⟩ = some (.text "\x7bLoop\x7d") := by cbv
    have black : inkAndLoopRearranged.value? ⟨["Black"]⟩ =
        some (.object [("hex", .text "#000000"), ("colorSpace", .text "srgb")]) := by cbv
    simp only [listed, List.forall_mem_cons, List.not_mem_nil, false_imp_iff, implies_true, and_true]
    refine ⟨?_, ?_, ?_⟩
    · rintro value ⟨⟩
      exact ⟨_, ink, .refl _⟩
    · rintro value ⟨⟩
      exact ⟨_, loop, .refl _⟩
    · rintro value ⟨⟩
      exact ⟨_, black, .of_perm (by decide) (.swap ..)⟩
  obtain ⟨scalars, cycles, themes⟩ := covers_spec covers
  refine ⟨covers, scalars "Ink" _ ?_, cycles "Loop" _ ?_, (themes _ "Night").1 _ ?_⟩
  · cbv
  · cbv
  · cbv

end DesignTokens.Theme
