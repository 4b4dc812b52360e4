import DesignTokens.Token.Tree

/-!
Resolution of aliases. A resolver remembers the tokens whose resolution is in progress; meeting
one of them again is a cycle, so a chain of aliases takes at most one step for each token of the
tree.
-/

namespace DesignTokens.Token

namespace Tree

def unvisited (tree : Tree) (visited : List Path) : List (List String) :=
  (places tree.toDocument).filter fun place => !visited.contains ⟨place⟩

theorem nil_mem_places {node value : Document} (declares : node.field? valueKey = some value) :
    [] ∈ places node := by
  cases node <;>
    simp_all [Document.field?, Document.entries?, places, declaresValue]

theorem mem_placesIn {name : String} {value : Document} {entries : Entries Document}
    {place : List String} (found : entries.value? name = some value) (here : place ∈ places value) :
    name :: place ∈ placesIn entries := by
  induction entries with
  | nil => simp [Entries.value?] at found
  | cons head rest ih =>
      obtain ⟨other, first⟩ := head
      by_cases same : other = name
      · simp only [Entries.value?, same, if_true, Option.some.injEq] at found
        subst found same
        simp [placesIn, here]
      · simp only [Entries.value?, same, if_false] at found
        simp [placesIn, ih found]

theorem mem_places_of_descend {reference : String} {segments : List String}
    {node last value : Document} (walk : descend reference segments node = .ok last)
    (declares : last.field? valueKey = some value) : segments ∈ places node := by
  induction segments generalizing node with
  | nil =>
      simp only [descend, Except.ok.injEq] at walk
      subst walk
      exact nil_mem_places declares
  | cons segment rest ih =>
      simp only [descend] at walk
      cases step : node.field? segment with
      | none => simp [step] at walk
      | some next =>
          simp only [step] at walk
          have below := ih walk
          cases node with
          | object entries =>
              have found : Entries.value? segment entries = some next := by
                simpa [Document.field?, Document.entries?] using step
              simp [places, mem_placesIn found below]
          | _ => simp [Document.field?, Document.entries?] at step

theorem mem_places_of_declared {tree : Tree} {path : Path} {reference : String} {value : Document}
    (found : tree.declared path reference = .ok value) :
    path.segments ∈ places tree.toDocument := by
  simp only [declared, lookup] at found
  split at found
  · simp at found
  · rename_i node walk
    split at found
    · rename_i value' declares
      exact mem_places_of_descend walk declares
    · simp at found

/-- A visit that moves on leaves fewer tokens to meet. -/
theorem unvisited_lt {tree : Tree} {path : Path} {visited : List Path}
    (place : path.segments ∈ places tree.toDocument) (fresh : path ∉ visited) :
    (tree.unvisited (visited ++ [path])).length < (tree.unvisited visited).length := by
  have narrowed : tree.unvisited (visited ++ [path]) =
      (tree.unvisited visited).filter fun place => !([path] : List Path).contains ⟨place⟩ := by
    simp [unvisited, List.filter_filter, Bool.and_comm]
  rw [narrowed, List.length_filter_lt_length_iff_exists]
  exact ⟨path.segments, by simp [unvisited, place, fresh], by simp⟩

/--
Follows aliases from a path to a scalar. The second component is the visit afterwards, whether it
succeeded or not. The reference is the text that asked for the path.
-/
def follow (tree : Tree) (visited : List Path) (path : Path) (reference : String) :
    Except TokenError Scalar × List Path :=
  if _fresh : path ∈ visited then (.error (.cyclic ((visited ++ [path]).map Path.text)), visited)
  else match _found : tree.declared path reference with
    | .error e => (.error e, visited)
    | .ok value =>
        match Declared.ofDocument path.text value with
        | .error e => (.error e, visited)
        | .ok (.concrete scalar) => (.ok scalar, visited)
        | .ok (.reference target) => follow tree (visited ++ [path]) target target.toAlias
termination_by (tree.unvisited visited).length
decreasing_by
  exact unvisited_lt (mem_places_of_declared _found) _fresh

end Tree

structure Resolver where
  tree : Tree
  inProgress : List Path

namespace Resolver

def new (tree : Tree) : Resolver := ⟨tree, []⟩

def follow (resolver : Resolver) (path : Path) (reference : String) :
    Except TokenError Scalar × Resolver :=
  let (result, visited) := resolver.tree.follow resolver.inProgress path reference
  (result, { resolver with inProgress := visited.take resolver.inProgress.length })

def resolveAt (resolver : Resolver) (path : String) : Except TokenError Scalar × Resolver :=
  resolver.follow (.ofText path) path

def resolve (resolver : Resolver) (declared : Document) : Except TokenError Scalar × Resolver :=
  match Declared.ofDocument "" declared with
  | .error e => (.error e, resolver)
  | .ok (.concrete scalar) => (.ok scalar, resolver)
  | .ok (.reference target) => resolver.follow target target.toAlias

end Resolver

namespace Tree

def resolveAt (tree : Tree) (path : String) : Except TokenError Scalar :=
  ((Resolver.new tree).resolveAt path).1

def resolve (tree : Tree) (declared : Document) : Except TokenError Scalar :=
  ((Resolver.new tree).resolve declared).1

def resolvePaths (tree : Tree) : List String → Entries Scalar → Except TokenError (Entries Scalar)
  | [], resolved => .ok resolved
  | path :: rest, resolved =>
      match tree.resolveAt path with
      | .error e => .error e
      | .ok scalar => tree.resolvePaths rest (resolved.put path scalar)

/-- Every outermost token by its path. The first one that does not resolve ends the work. -/
def resolveAll (tree : Tree) : Except TokenError (Entries Scalar) :=
  tree.resolvePaths tree.tokenPaths []

end Tree

end DesignTokens.Token
