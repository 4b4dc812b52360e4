import DesignTokens.Proofs.Document.Alike
import DesignTokens.Proofs.Token.Resolution

/-!
Trees that declare what another one declares, in any order and beside anything else. Every chain of
aliases goes the same way in both, so what resolves in the one resolves in the other to the same
scalar, and a cycle of the one is that cycle in the other.
-/

namespace DesignTokens.Token

variable {tree other : Tree} {text : String} {n : Nat} {path target : Path} {value copy : Document}
  {scalar : Scalar}

/-- Whatever a tree declares at a path, the other declares there up to the order of entries. -/
def Tree.Covers (other tree : Tree) : Prop :=
  ∀ text value, tree.declared (.ofText text) text = .ok value →
    ∃ copy, other.declared (.ofText text) text = .ok copy ∧ value.Alike copy

theorem Literal.alike (reads : Literal value scalar) (alike : value.Alike copy) :
    Literal copy scalar := by
  cases reads with
  | number n =>
      cases alike
      exact .number n
  | text plain =>
      cases alike
      exact .text plain
  | color given =>
      obtain ⟨others, hex, rfl, there, same⟩ := alike.value? given
      cases same
      exact .color there

theorem target?_alike (alike : value.Alike copy) : target? copy = target? value := by
  cases alike <;> rfl

namespace Tree

theorem exists_ofText (reached : tree.chain (.ofText text) n = some path) :
    ∃ s, path = .ofText s := by
  cases n with
  | zero =>
      cases reached
      exact ⟨text, rfl⟩
  | succ n =>
      obtain ⟨before, -, step⟩ := Option.bind_eq_some_iff.mp reached
      obtain ⟨value, -, names⟩ := Option.bind_eq_some_iff.mp step
      obtain ⟨written, -, reads⟩ := Option.bind_eq_some_iff.mp names
      obtain ⟨s, -, same⟩ := Option.map_eq_some_iff.mp reads
      exact ⟨s, same.symm⟩

theorem Covers.of_places
    (each : ∀ place ∈ places tree.toDocument, ∀ value, tree.value? ⟨place⟩ = some value →
      ∃ copy, other.value? ⟨place⟩ = some copy ∧ value.Alike copy) : other.Covers tree := by
  intro text value declares
  have place : (Path.ofText text).segments ∈ places tree.toDocument :=
    mem_places_of_declared declares
  obtain ⟨copy, there, alike⟩ := each _ place value (declared_eq_ok.mp declares)
  exact ⟨copy, declared_eq_ok.mpr there, alike⟩

theorem Covers.value? (covers : other.Covers tree)
    (declares : tree.value? (.ofText text) = some value) :
    ∃ copy, other.value? (.ofText text) = some copy ∧ value.Alike copy := by
  obtain ⟨copy, there, alike⟩ := covers text value (declared_eq_ok.mpr declares)
  exact ⟨copy, declared_eq_ok.mp there, alike⟩

theorem Covers.next? (covers : other.Covers tree) (step : tree.next? (.ofText text) = some target) :
    other.next? (.ofText text) = some target := by
  obtain ⟨value, declares, names⟩ := Option.bind_eq_some_iff.mp step
  obtain ⟨copy, there, alike⟩ := covers.value? declares
  rw [Tree.next?, there, Option.bind_some, target?_alike alike, names]

theorem Covers.chain (covers : other.Covers tree)
    (reached : tree.chain (.ofText text) n = some path) :
    other.chain (.ofText text) n = some path := by
  induction n generalizing path with
  | zero => exact reached
  | succ n ih =>
      obtain ⟨before, here, step⟩ := Option.bind_eq_some_iff.mp reached
      obtain ⟨s, rfl⟩ := exists_ofText here
      rw [Tree.chain, ih here, Option.bind_some, covers.next? step]

theorem Covers.resolveAt_of_ok (covers : other.Covers tree)
    (reads : tree.resolveAt text = .ok scalar) : other.resolveAt text = .ok scalar := by
  have outcome := tree.resolveAt_outcome text
  rw [reads] at outcome
  cases outcome with
  | ended reached asked ends =>
      cases ends with
      | literal declares literal =>
          obtain ⟨s, rfl⟩ := exists_ofText reached
          obtain ⟨copy, there, alike⟩ := covers.value? declares
          obtain ⟨reference, asked⟩ := exists_asks text (covers.chain reached)
          apply (other.resolveAt_outcome text).unique
          exact .ended (covers.chain reached) asked (.literal there (literal.alike alike))

theorem Covers.resolveAt_of_cyclic {met : List String} (covers : other.Covers tree)
    (cyclic : tree.resolveAt text = .error (.cyclic met)) :
    other.resolveAt text = .error (.cyclic met) := by
  have outcome := tree.resolveAt_outcome text
  rw [cyclic] at outcome
  cases outcome with
  | ended reached asked ends => cases ends
  | circled path m endless returns fresh =>
      apply (other.resolveAt_outcome text).unique
      exact .circled path m (fun n => covers.chain (endless n)) returns fresh

end Tree

end DesignTokens.Token
