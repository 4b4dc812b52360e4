import DesignTokens.Proofs.Token.Everything
import DesignTokens.Proofs.Token.Resolution

/-!
When a resolved text is an alias. A plain text is followed when it is one, but the hex text of a
color is taken as it stands: what is resolved is an alias exactly when it is the hex of a color.
-/

namespace DesignTokens.Token.Tree

def IsColor (value : Document) (hex : String) : Prop :=
  ∃ entries, value = .object entries ∧ Entries.value? hexKey entries = some (.text hex)

def EndsInColor (tree : Tree) (start : Path) (hex : String) : Prop :=
  ∃ n path value, tree.chain start n = some path ∧ tree.value? path = some value ∧
    IsColor value hex

variable {tree : Tree} {start : Path} {s : String}

theorem literal_alias_iff {value : Document} (named : isAlias s = true) :
    Literal value (.text s) ↔ IsColor value s := by
  constructor
  · intro reads
    cases reads with
    | text plain => simp [plain] at named
    | color given => exact ⟨_, rfl, given⟩
  · intro held
    rcases held with ⟨entries, rfl, given⟩
    exact .color given

theorem Outcome.alias_iff {text : String} {result : Except TokenError Scalar}
    (outcome : tree.Outcome start text result) (named : isAlias s = true) :
    result = .ok (.text s) ↔ tree.EndsInColor start s := by
  constructor
  · intro same
    subst same
    cases outcome with
    | ended reached asked ends =>
        cases ends with
        | literal declares reads =>
            exact ⟨_, _, _, reached, declares, (literal_alias_iff named).mp reads⟩
  · intro held
    rcases held with ⟨n, path, value, reached, declares, color⟩
    obtain ⟨reference, asked⟩ := exists_asks text reached
    apply outcome.unique
    exact .ended reached asked (.literal declares ((literal_alias_iff named).mpr color))

theorem resolve_alias_iff {declared : Document} (named : isAlias s = true) :
    tree.resolve declared = .ok (.text s) ↔ IsColor declared s ∨
      ∃ written target, declared = .text written ∧ Path.ofAlias? written = some target ∧
        tree.EndsInColor target s := by
  rcases classify "" declared with ⟨scalar, said, reads⟩ | ⟨written, target, -, rfl, names⟩ |
    ⟨said, shape⟩
  · have resolved : tree.resolve declared = .ok scalar := by
      simp [resolve, Resolver.resolve, said]
    rw [resolved]
    constructor
    · intro same
      injection same with scalars
      subst scalars
      exact .inl ((literal_alias_iff named).mp reads)
    · intro held
      rcases held with color | ⟨written, target, rfl, names, -⟩
      · rw [reads.unique ((literal_alias_iff named).mpr color)]
      · have none := reads.target?_eq_none
        simp [target?, Document.text?, names] at none
  · rw [(resolve_outcome tree names).alias_iff named]
    constructor
    · exact fun ends => .inr ⟨written, target, rfl, names, ends⟩
    · intro held
      rcases held with ⟨entries, other, -⟩ | ⟨_, target', same, names', ends⟩
      · cases other
      · cases same
        rw [names] at names'
        cases names'
        exact ends
  · have resolved : tree.resolve declared = .error (.unsupportedValue "" declared) := by
      simp [resolve, Resolver.resolve, said]
    rw [resolved]
    constructor
    · intro other
      cases other
    · intro held
      rcases held with color | ⟨written, target, rfl, names, -⟩
      · exact absurd ((literal_alias_iff named).mpr color) (shape.1 _)
      · have none := shape.2
        simp [target?, Document.text?, names] at none

/--
Resolving gives an alias exactly where the chain of aliases ends at a color whose hex text is one;
with every other token what is resolved is no alias.
-/
theorem alias_resolved_iff (tree : Tree) (s : String) :
    (∀ text, (tree.resolveAt text = .ok (.text s) ∧ isAlias s = true) ↔
      (tree.EndsInColor (.ofText text) s ∧ isAlias s = true)) ∧
    (∀ declared, (tree.resolve declared = .ok (.text s) ∧ isAlias s = true) ↔
      ((IsColor declared s ∨ ∃ written target, declared = .text written ∧
        Path.ofAlias? written = some target ∧ tree.EndsInColor target s) ∧ isAlias s = true)) ∧
    (∀ text, (∃ resolved, tree.resolveAll = .ok resolved ∧ (text, .text s) ∈ resolved ∧
        isAlias s = true) ↔
      ((∃ resolved, tree.resolveAll = .ok resolved) ∧ text ∈ tree.tokenPaths ∧
        tree.EndsInColor (.ofText text) s ∧ isAlias s = true)) := by
  refine ⟨?_, ?_, ?_⟩
  · intro text
    exact and_congr_left fun named => (tree.resolveAt_outcome text).alias_iff named
  · intro declared
    exact and_congr_left resolve_alias_iff
  · intro text
    constructor
    · intro held
      rcases held with ⟨resolved, done, present, named⟩
      obtain ⟨listed, reads⟩ := (mem_resolveAll done).mp present
      exact ⟨⟨resolved, done⟩, listed,
        ((tree.resolveAt_outcome text).alias_iff named).mp reads, named⟩
    · intro held
      rcases held with ⟨⟨resolved, done⟩, listed, ends, named⟩
      have reads := ((tree.resolveAt_outcome text).alias_iff named).mpr ends
      exact ⟨resolved, done, (mem_resolveAll done).mpr ⟨listed, reads⟩, named⟩

/-- A color whose hex text names another token: it is not followed, by any of the three ways. -/
def aliasedColor : Tree := ⟨[
  ("Color", .object [(valueKey, .object [(hexKey, .text "\x7bBlack\x7d")])]),
  ("Black", .object [(valueKey, .text "#000000")])]⟩

theorem color_alias_not_followed :
    aliasedColor.resolveAt "Color" = .ok (.text "\x7bBlack\x7d") ∧
      aliasedColor.resolve (.object [(hexKey, .text "\x7bBlack\x7d")]) =
        .ok (.text "\x7bBlack\x7d") ∧
      aliasedColor.resolveAll =
        .ok [("Color", .text "\x7bBlack\x7d"), ("Black", .text "#000000")] ∧
      isAlias "\x7bBlack\x7d" = true := by
  refine ⟨by cbv, by cbv, by cbv, by cbv⟩

end DesignTokens.Token.Tree
