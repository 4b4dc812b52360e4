import DesignTokens.Proofs.Token.Descent

/-! Chains of aliases: each path leads to the path that its token names, as long as it names one. -/

namespace DesignTokens.Token

/-- The scalar that a declared value is: a number, a text that is no alias, a color by its hex. -/
inductive Literal : Document → Scalar → Prop
  | number (n : Number) : Literal (.number n) (.number n.toBinary64)
  | text {s : String} (plain : isAlias s = false) : Literal (.text s) (.text s)
  | color {entries : Entries Document} {hex : String}
      (given : entries.value? hexKey = some (.text hex)) : Literal (.object entries) (.text hex)

def target? (value : Document) : Option Path := value.text?.bind Path.ofAlias?

def Shapeless (value : Document) : Prop :=
  (∀ scalar, ¬ Literal value scalar) ∧ target? value = none

theorem Literal.target?_eq_none {value : Document} {scalar : Scalar}
    (reads : Literal value scalar) : target? value = none := by
  cases reads with
  | number n => rfl
  | text plain => exact (Path.ofAlias?_eq_none_iff _).mpr plain
  | color given => rfl

theorem Literal.unique {value : Document} {first second : Scalar}
    (one : Literal value first) (other : Literal value second) : first = second := by
  cases one with
  | number n => cases other; rfl
  | text plain => cases other; rfl
  | color given =>
      cases other with
      | color given' =>
          rw [given] at given'
          injection given' with texts
          injection texts with same
          rw [same]

/-- How a declared value is classified, in each of the three cases. -/
theorem classify (path : String) (value : Document) :
    (∃ scalar, Declared.ofDocument path value = .ok (.concrete scalar) ∧ Literal value scalar) ∨
      (∃ s target, Declared.ofDocument path value = .ok (.reference target) ∧ value = .text s ∧
        Path.ofAlias? s = some target) ∨
      (Declared.ofDocument path value = .error (.unsupportedValue path value) ∧
        Shapeless value) := by
  cases value with
  | text s =>
      cases reads : Path.ofAlias? s with
      | none =>
          refine .inl ⟨.text s, ?_, .text ((Path.ofAlias?_eq_none_iff s).mp reads)⟩
          simp [Declared.ofDocument, reads]
      | some target =>
          refine .inr (.inl ⟨s, target, ?_, rfl, reads⟩)
          simp [Declared.ofDocument, reads]
  | number n => exact .inl ⟨_, rfl, .number n⟩
  | object entries =>
      by_cases colored : ∃ hex, Entries.value? hexKey entries = some (.text hex)
      · obtain ⟨hex, given⟩ := colored
        refine .inl ⟨.text hex, ?_, .color given⟩
        simp [Declared.ofDocument, given]
      · refine .inr (.inr ⟨?_, ?_, rfl⟩)
        · simp only [Declared.ofDocument]
          split
          · rename_i hex given
            exact absurd ⟨hex, given⟩ colored
          · rfl
        · intro scalar reads
          cases reads with
          | color given => exact colored ⟨_, given⟩
  | null => exact .inr (.inr ⟨rfl, by rintro scalar ⟨⟩, rfl⟩)
  | bool value => exact .inr (.inr ⟨rfl, by rintro scalar ⟨⟩, rfl⟩)
  | array items => exact .inr (.inr ⟨rfl, by rintro scalar ⟨⟩, rfl⟩)

namespace Tree

def next? (tree : Tree) (path : Path) : Option Path := (tree.value? path).bind target?

def chain (tree : Tree) (start : Path) : Nat → Option Path
  | 0 => some start
  | n + 1 => (tree.chain start n).bind tree.next?

variable {tree : Tree} {start : Path}

theorem chain_add (i n : Nat) :
    tree.chain start (i + n) = (tree.chain start i).bind fun path => tree.chain path n := by
  induction n with
  | zero => simp [chain]
  | succ n ih =>
      rw [← Nat.add_assoc, chain, ih, Option.bind_assoc]
      rfl

theorem chain_isSome_of_le {m n : Nat} (before : m ≤ n) (going : (tree.chain start n).isSome) :
    (tree.chain start m).isSome := by
  obtain ⟨rest, rfl⟩ := Nat.exists_eq_add_of_le before
  rw [chain_add] at going
  cases here : tree.chain start m with
  | none => simp [here] at going
  | some path => rfl

/-- A chain that comes back to a path goes round for ever. -/
theorem chain_endless {i j : Nat} {path : Path} (before : i < j)
    (first : tree.chain start i = some path) (again : tree.chain start j = some path) (n : Nat) :
    (tree.chain start n).isSome := by
  induction n using Nat.strongRecOn with
  | ind n ih =>
      by_cases early : n ≤ j
      · exact chain_isSome_of_le early (by rw [again]; rfl)
      · obtain ⟨rest, rfl⟩ := Nat.exists_eq_add_of_le (Nat.le_of_not_le early)
        have earlier := ih (i + rest) (by omega)
        rw [chain_add, first] at earlier
        rw [chain_add, again]
        exact earlier

theorem chain_le_of_last {m n : Nat} {path : Path} (reached : tree.chain start m = some path)
    (last : tree.next? path = none) (going : (tree.chain start n).isSome) : n ≤ m := by
  apply Nat.le_of_not_lt
  intro later
  have next := chain_isSome_of_le (Nat.succ_le_of_lt later) going
  simp [chain, reached, last] at next

theorem chain_last_unique {m n : Nat} {path other : Path}
    (reached : tree.chain start m = some path) (last : tree.next? path = none)
    (reached' : tree.chain start n = some other) (last' : tree.next? other = none) :
    m = n ∧ path = other := by
  have one : n ≤ m := chain_le_of_last reached last (by rw [reached']; rfl)
  have two : m ≤ n := chain_le_of_last reached' last' (by rw [reached]; rfl)
  have same : m = n := Nat.le_antisymm two one
  subst same
  rw [reached] at reached'
  exact ⟨rfl, Option.some.inj reached'⟩

end Tree

end DesignTokens.Token
