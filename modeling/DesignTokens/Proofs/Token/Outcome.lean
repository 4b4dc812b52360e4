import DesignTokens.Proofs.Token.Chain
import DesignTokens.Token.Resolver

/-!
What resolving a path comes to. The chain of aliases from the path ends at a token with a scalar, at
a path that cannot be walked, at a node without a value, at a value of no supported shape, or never;
`Tree.resolveAt` finds out which, and reports it.
-/

namespace DesignTokens.Token.Tree

/-- The text that asks for a path of the chain: the given one first, then each alias as written. -/
def Asks (tree : Tree) (start : Path) (text : String) : Nat → String → Prop
  | 0, reference => reference = text
  | n + 1, reference => ∃ path, tree.chain start n = some path ∧
      tree.value? path = some (.text reference)

inductive Ends (tree : Tree) (path : Path) (reference : String) : Except TokenError Scalar → Prop
  | literal {value : Document} {scalar : Scalar} (declares : tree.value? path = some value)
      (reads : Literal value scalar) : Ends tree path reference (.ok scalar)
  | broken {segment : String} (breaks : tree.Breaks path segment) :
      Ends tree path reference (.error (.pathNotFound reference segment))
  | undeclared (node : tree.Undeclared path) :
      Ends tree path reference (.error (.noValue path.text))
  | shapeless {value : Document} (declares : tree.value? path = some value)
      (shape : Shapeless value) :
      Ends tree path reference (.error (.unsupportedValue path.text value))

/-- What the chain from a path comes to, where a text asks for that path. -/
inductive Outcome (tree : Tree) (start : Path) (text : String) : Except TokenError Scalar → Prop
  | ended {n : Nat} {path : Path} {reference : String} {result : Except TokenError Scalar}
      (reached : tree.chain start n = some path) (asked : tree.Asks start text n reference)
      (ends : tree.Ends path reference result) : Outcome tree start text result
  /-- The paths up to the first one that was met before, whatever leads into the cycle included. -/
  | circled (path : Nat → Path) (m : Nat)
      (endless : ∀ n, tree.chain start n = some (path n))
      (returns : ∃ i < m, path i = path m) (fresh : ∀ j < m, ∀ i < j, path i ≠ path j) :
      Outcome tree start text (.error (.cyclic ((List.range (m + 1)).map fun i => (path i).text)))

variable {tree : Tree} {start : Path} {text : String}

theorem Asks.unique {n : Nat} {first second : String} (one : tree.Asks start text n first)
    (other : tree.Asks start text n second) : first = second := by
  cases n with
  | zero => exact Eq.trans one (Eq.symm other)
  | succ n =>
      obtain ⟨path, reached, declares⟩ := one
      obtain ⟨path', reached', declares'⟩ := other
      rw [reached] at reached'
      cases reached'
      rw [declares] at declares'
      injection declares' with texts
      injection texts

theorem exists_asks {n : Nat} {path : Path} (text : String)
    (reached : tree.chain start n = some path) : ∃ reference, tree.Asks start text n reference := by
  cases n with
  | zero => exact ⟨text, rfl⟩
  | succ n =>
      obtain ⟨before, here, step⟩ := Option.bind_eq_some_iff.mp reached
      obtain ⟨value, declares, names⟩ := Option.bind_eq_some_iff.mp step
      cases value with
      | text reference => exact ⟨reference, before, here, declares⟩
      | _ => simp [target?, Document.text?] at names

theorem Ends.next?_eq_none {path : Path} {reference : String}
    {result : Except TokenError Scalar} (ends : tree.Ends path reference result) :
    tree.next? path = none := by
  cases ends with
  | literal declares reads => rw [next?, declares]; exact reads.target?_eq_none
  | broken breaks => rw [next?, breaks.value?_eq_none]; rfl
  | undeclared node => rw [next?, node.value?_eq_none]; rfl
  | shapeless declares shape => rw [next?, declares]; exact shape.2

theorem Ends.of_declared {path : Path} {reference : String} {result : Except TokenError Scalar}
    {value : Document} (ends : tree.Ends path reference result)
    (declares : tree.value? path = some value) :
    (∃ scalar, Literal value scalar ∧ result = .ok scalar) ∨
      (Shapeless value ∧ result = .error (.unsupportedValue path.text value)) := by
  cases ends with
  | literal declares' reads =>
      rw [declares] at declares'
      cases declares'
      exact .inl ⟨_, reads, rfl⟩
  | broken breaks => simp [breaks.value?_eq_none] at declares
  | undeclared node => simp [node.value?_eq_none] at declares
  | shapeless declares' shape =>
      rw [declares] at declares'
      cases declares'
      exact .inr ⟨shape, rfl⟩

theorem Ends.of_undeclared {path : Path} {reference : String} {result : Except TokenError Scalar}
    (ends : tree.Ends path reference result) (absent : tree.value? path = none) :
    (∃ segment, tree.Breaks path segment ∧ result = .error (.pathNotFound reference segment)) ∨
      (tree.Undeclared path ∧ result = .error (.noValue path.text)) := by
  cases ends with
  | literal declares reads => simp [absent] at declares
  | broken breaks => exact .inl ⟨_, breaks, rfl⟩
  | undeclared node => exact .inr ⟨node, rfl⟩
  | shapeless declares shape => simp [absent] at declares

theorem Ends.unique {path : Path} {reference : String} {first second : Except TokenError Scalar}
    (one : tree.Ends path reference first) (other : tree.Ends path reference second) :
    first = second := by
  cases found : tree.value? path with
  | some value =>
      rcases one.of_declared found with ⟨scalar, reads, rfl⟩ | ⟨shape, rfl⟩ <;>
        rcases other.of_declared found with ⟨scalar', reads', rfl⟩ | ⟨shape', rfl⟩
      · rw [reads.unique reads']
      · exact absurd reads (shape'.1 scalar)
      · exact absurd reads' (shape.1 scalar')
      · rfl
  | none =>
      have apart {segment : String} (breaks : tree.Breaks path segment)
          (node : tree.Undeclared path) : False := by
        rcases node with ⟨last, reached, -⟩
        simp [breaks.at?_eq_none] at reached
      rcases one.of_undeclared found with ⟨segment, breaks, rfl⟩ | ⟨node, rfl⟩ <;>
        rcases other.of_undeclared found with ⟨segment', breaks', rfl⟩ | ⟨node', rfl⟩
      · rw [breaks.unique breaks']
      · exact (apart breaks node').elim
      · exact (apart breaks' node).elim
      · rfl

theorem Outcome.unique {first second : Except TokenError Scalar}
    (one : tree.Outcome start text first) (other : tree.Outcome start text second) : first = second := by
  cases one with
  | @ended n _ _ _ reached asked ends =>
      have last := ends.next?_eq_none
      cases other with
      | ended reached' asked' ends' =>
          obtain ⟨rfl, rfl⟩ := chain_last_unique reached last reached' ends'.next?_eq_none
          cases asked.unique asked'
          exact ends.unique ends'
      | circled path m endless returns fresh =>
          have further := chain_le_of_last (n := n + 1) reached last (by rw [endless]; rfl)
          omega
  | circled path m endless returns fresh =>
      cases other with
      | @ended n _ _ _ reached asked ends =>
          have further := chain_le_of_last (n := n + 1) reached ends.next?_eq_none
            (by rw [endless]; rfl)
          omega
      | circled path' m' endless' returns' fresh' =>
          have paths : path' = path := by
            funext n
            have here := endless n
            rw [endless' n] at here
            exact Option.some.inj here
          subst paths
          have bounds : m = m' := by
            obtain ⟨i, before, met⟩ := returns
            obtain ⟨i', before', met'⟩ := returns'
            apply Nat.le_antisymm
            · exact Nat.le_of_not_lt fun later => fresh m' later i' before' met'
            · exact Nat.le_of_not_lt fun later => fresh' m later i before met
          rw [bounds]

end DesignTokens.Token.Tree
