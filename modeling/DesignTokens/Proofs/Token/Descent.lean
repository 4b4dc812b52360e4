import DesignTokens.Proofs.Document.Lookup
import DesignTokens.Proofs.Token.AliasText
import DesignTokens.Token.Tree

/-! What a tree declares at a path, and where a walk down to a path breaks off. -/

namespace DesignTokens.Token

namespace Tree

def value? (tree : Tree) (path : Path) : Option Document :=
  tree.toDocument.at? (path.segments ++ [valueKey])

/-- A walk down to a path first fails at a segment: it is missing, or its parent is no object. -/
def Breaks (tree : Tree) (path : Path) (segment : String) : Prop :=
  ∃ before after node, path.segments = before ++ segment :: after ∧
    tree.toDocument.at? before = some node ∧ node.field? segment = none

def Undeclared (tree : Tree) (path : Path) : Prop :=
  ∃ node, tree.toDocument.at? path.segments = some node ∧ node.field? valueKey = none

theorem descend_eq_ok {reference : String} {segments : List String} {node last : Document} :
    descend reference segments node = .ok last ↔ node.at? segments = some last := by
  induction segments generalizing node with
  | nil => simp [descend, Document.at?]
  | cons segment rest ih =>
      rw [descend, Document.at?_cons]
      cases step : node.field? segment with
      | none => simp
      | some next => simpa using ih

theorem descend_eq_error {reference : String} {segments : List String} {node : Document}
    {e : TokenError} (failed : descend reference segments node = .error e) :
    ∃ before segment after last, e = .pathNotFound reference segment ∧
      segments = before ++ segment :: after ∧ node.at? before = some last ∧
      last.field? segment = none := by
  induction segments generalizing node with
  | nil => simp [descend] at failed
  | cons segment rest ih =>
      rw [descend] at failed
      cases step : node.field? segment with
      | none =>
          simp only [step, Except.error.injEq] at failed
          exact ⟨[], segment, rest, node, failed.symm, rfl, rfl, step⟩
      | some next =>
          simp only [step] at failed
          obtain ⟨before, missing, after, last, said, cut, reached, absent⟩ := ih failed
          refine ⟨segment :: before, missing, after, last, said, by rw [cut]; rfl, ?_, absent⟩
          rw [Document.at?_cons, step]
          exact reached

theorem descend_of_missing (reference : String) {before : List String} {segment : String}
    (after : List String) {node last : Document} (reached : node.at? before = some last)
    (absent : last.field? segment = none) :
    descend reference (before ++ segment :: after) node =
      .error (.pathNotFound reference segment) := by
  induction before generalizing node with
  | nil =>
      simp only [Document.at?, Option.some.injEq] at reached
      subst reached
      simp [descend, absent]
  | cons name rest ih =>
      rw [Document.at?_cons] at reached
      obtain ⟨next, step, below⟩ := Option.bind_eq_some_iff.mp reached
      rw [List.cons_append, descend, step]
      exact ih below

theorem value?_eq (tree : Tree) (path : Path) :
    tree.value? path = (tree.toDocument.at? path.segments).bind (Document.field? valueKey) := by
  rw [value?, Document.at?_append]
  congr 1
  funext node
  exact Document.at?_singleton valueKey node

theorem declared_eq_ok {tree : Tree} {path : Path} {reference : String} {value : Document} :
    tree.declared path reference = .ok value ↔ tree.value? path = some value := by
  rw [value?_eq, declared, lookup]
  cases walk : descend reference path.segments tree.toDocument with
  | error e =>
      have nowhere : tree.toDocument.at? path.segments = none := by
        cases reached : tree.toDocument.at? path.segments with
        | none => rfl
        | some last => simp [descend_eq_ok.mpr reached] at walk
      simp [nowhere]
  | ok node =>
      rw [descend_eq_ok.mp walk]
      cases declares : node.field? valueKey <;> simp [declares]

/-- A path without a declared value either breaks off or leads to what is no token. -/
theorem declared_eq_error {tree : Tree} {path : Path} {reference : String} {e : TokenError}
    (failed : tree.declared path reference = .error e) :
    (∃ segment, e = .pathNotFound reference segment ∧ tree.Breaks path segment) ∨
      (e = .noValue path.text ∧ tree.Undeclared path) := by
  rw [declared, lookup] at failed
  cases walk : descend reference path.segments tree.toDocument with
  | error cause =>
      simp only [walk, Except.error.injEq] at failed
      obtain ⟨before, segment, after, last, said, cut, reached, absent⟩ := descend_eq_error walk
      exact .inl ⟨segment, failed ▸ said, before, after, last, cut, reached, absent⟩
  | ok node =>
      simp only [walk] at failed
      cases declares : node.field? valueKey with
      | none =>
          simp only [declares, Except.error.injEq] at failed
          exact .inr ⟨failed.symm, node, descend_eq_ok.mp walk, declares⟩
      | some value => simp [declares] at failed

theorem Undeclared.value?_eq_none {tree : Tree} {path : Path} (undeclared : tree.Undeclared path) :
    tree.value? path = none := by
  obtain ⟨node, reached, absent⟩ := undeclared
  rw [value?_eq, reached]
  exact absent

theorem Breaks.at?_eq_none {tree : Tree} {path : Path} {segment : String}
    (broken : tree.Breaks path segment) : tree.toDocument.at? path.segments = none := by
  obtain ⟨before, after, node, cut, reached, absent⟩ := broken
  rw [cut, Document.at?_append, reached, Option.bind_some, Document.at?_cons, absent]
  rfl

theorem Breaks.value?_eq_none {tree : Tree} {path : Path} {segment : String}
    (broken : tree.Breaks path segment) : tree.value? path = none := by
  rw [value?_eq, broken.at?_eq_none]
  rfl

theorem Breaks.unique {tree : Tree} {path : Path} {first second : String}
    (one : tree.Breaks path first) (other : tree.Breaks path second) : first = second := by
  obtain ⟨before, after, node, cut, reached, absent⟩ := one
  obtain ⟨before', after', node', cut', reached', absent'⟩ := other
  have failed := descend_of_missing "" after reached absent
  have failed' := descend_of_missing "" after' reached' absent'
  rw [← cut] at failed
  rw [← cut', failed] at failed'
  simpa using failed'

end Tree

end DesignTokens.Token
