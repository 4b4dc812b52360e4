import DesignTokens.Proofs.Token.Outcome

/-!
Resolving a path finds out what the chain of aliases from it comes to. What a visit has met so far
are the first paths of the chain, all different, so the visit turns back at the first return.
-/

namespace DesignTokens.Token.Tree

/-- A visit has met the first paths of the chain, each once, and is asked for the next one. -/
structure Visit (tree : Tree) (start : Path) (text : String) (visited : List Path) (path : Path)
    (reference : String) : Prop where
  met : ∀ i (inside : i < visited.length), tree.chain start i = some visited[i]
  distinct : visited.Nodup
  reached : tree.chain start visited.length = some path
  asked : tree.Asks start text visited.length reference

variable {tree : Tree} {start path : Path} {text reference : String} {visited : List Path}

theorem Visit.first (tree : Tree) (start : Path) (text : String) :
    tree.Visit start text [] start text :=
  ⟨fun _ inside => absurd inside (Nat.not_lt_zero _), List.nodup_nil, rfl, rfl⟩

theorem Visit.met_append (visit : tree.Visit start text visited path reference) (i : Nat)
    (inside : i < (visited ++ [path]).length) :
    tree.chain start i = some (visited ++ [path])[i] := by
  rw [List.getElem_append]
  split
  · rename_i earlier
    exact visit.met i earlier
  · rename_i later
    have last : i = visited.length := by
      simp only [List.length_append, List.length_singleton] at inside
      omega
    subst last
    simpa using visit.reached

theorem Visit.step (visit : tree.Visit start text visited path reference) (unmet : path ∉ visited)
    {s : String} {target : Path} (declares : tree.value? path = some (.text s))
    (reads : Path.ofAlias? s = some target) :
    tree.Visit start text (visited ++ [path]) target s where
  met := visit.met_append
  distinct := by
    rw [List.nodup_append]
    refine ⟨visit.distinct, List.nodup_cons.mpr ⟨List.not_mem_nil, List.nodup_nil⟩, ?_⟩
    intro one earlier other last
    rw [List.mem_singleton.mp last]
    exact fun same => unmet (same ▸ earlier)
  reached := by
    rw [List.length_append, List.length_singleton, chain, visit.reached]
    simpa [next?, declares, target?, Document.text?] using reads
  asked := by
    rw [List.length_append, List.length_singleton]
    exact ⟨path, visit.reached, declares⟩

theorem Visit.circled (visit : tree.Visit start text visited path reference) (again : path ∈ visited) :
    tree.Outcome start text (.error (.cyclic ((visited ++ [path]).map Path.text))) := by
  obtain ⟨i, inside, here⟩ := List.mem_iff_getElem.mp again
  have first : tree.chain start i = some path := by rw [visit.met i inside, here]
  have going := chain_endless inside first visit.reached
  let walk (n : Nat) : Path := (tree.chain start n).get (going n)
  have endless (n : Nat) : tree.chain start n = some (walk n) := (Option.some_get _).symm
  have walked (n : Nat) {p : Path} (known : tree.chain start n = some p) : walk n = p :=
    Option.some.inj ((endless n).symm.trans known)
  have whole : (visited ++ [path]).map Path.text =
      (List.range (visited.length + 1)).map fun n => (walk n).text := by
    apply List.ext_getElem
    · simp
    · intro n below _
      rw [List.length_map] at below
      rw [List.getElem_map, List.getElem_map, List.getElem_range,
        walked n (visit.met_append n below)]
  rw [whole]
  apply Outcome.circled walk visited.length endless
  · exact ⟨i, inside, by rw [walked i first, walked _ visit.reached]⟩
  · intro j below k before same
    rw [walked j (visit.met j below), walked k (visit.met k (Nat.lt_trans before below))] at same
    exact List.pairwise_iff_getElem.mp visit.distinct k j _ below before same

theorem Visit.outcome (visit : tree.Visit start text visited path reference) :
    tree.Outcome start text (tree.follow visited path reference).1 := by
  fun_induction Tree.follow tree visited path reference with
  | case1 visited path reference again => exact visit.circled again
  | case2 visited path reference fresh e failed =>
      rcases declared_eq_error failed with ⟨segment, rfl, breaks⟩ | ⟨rfl, node⟩
      · exact .ended visit.reached visit.asked (.broken breaks)
      · exact .ended visit.reached visit.asked (.undeclared node)
  | case3 visited path reference fresh value found e failed =>
      have declares := declared_eq_ok.mp found
      rcases classify path.text value with ⟨_, said, _⟩ | ⟨_, _, said, _⟩ | ⟨said, shape⟩ <;>
        rw [said] at failed <;> cases failed
      exact .ended visit.reached visit.asked (.shapeless declares shape)
  | case4 visited path reference fresh value found scalar reads =>
      have declares := declared_eq_ok.mp found
      rcases classify path.text value with ⟨_, said, literal⟩ | ⟨_, _, said, _⟩ | ⟨said, _⟩ <;>
        rw [said] at reads <;> cases reads
      exact .ended visit.reached visit.asked (.literal declares literal)
  | case5 visited path reference fresh value found target reads ih =>
      have declares := declared_eq_ok.mp found
      rcases classify path.text value with ⟨_, said, _⟩ | ⟨s, _, said, written, names⟩ | ⟨said, _⟩ <;>
        rw [said] at reads <;> cases reads
      rw [Path.toAlias_of_ofAlias? names] at ih ⊢
      exact ih (visit.step fresh (written ▸ declares) names)

theorem resolveAt_outcome (tree : Tree) (text : String) :
    tree.Outcome (.ofText text) text (tree.resolveAt text) :=
  (Visit.first tree (.ofText text) text).outcome

theorem resolve_outcome (tree : Tree) {text : String} {target : Path}
    (names : Path.ofAlias? text = some target) :
    tree.Outcome target text (tree.resolve (.text text)) := by
  have resolved : tree.resolve (.text text) = (tree.follow [] target text).1 := by
    simp [resolve, Resolver.resolve, Resolver.follow, Resolver.new, Declared.ofDocument, names,
      Path.toAlias_of_ofAlias? names]
  rw [resolved]
  exact (Visit.first tree target text).outcome

/--
A path resolves to what the chain of aliases from it comes to, and the chain is reported as a cycle
exactly when it has no end.
-/
theorem resolveAt_eq_iff (tree : Tree) (text : String) :
    (∀ result, tree.resolveAt text = result ↔ tree.Outcome (.ofText text) text result) ∧
      ((∃ met, tree.resolveAt text = .error (.cyclic met)) ↔
        ∀ n, (tree.chain (.ofText text) n).isSome) := by
  have outcome := tree.resolveAt_outcome text
  refine ⟨fun result => ⟨fun same => same ▸ outcome, fun other => outcome.unique other⟩, ?_, ?_⟩
  · intro held n
    rcases held with ⟨met, cyclic⟩
    rw [cyclic] at outcome
    cases outcome with
    | ended reached asked ends => cases ends
    | circled path m endless returns fresh => rw [endless]; rfl
  · intro endless
    generalize tree.resolveAt text = result at outcome
    cases outcome with
    | @ended n _ _ _ reached asked ends =>
        have further := chain_le_of_last reached ends.next?_eq_none (endless (n + 1))
        omega
    | circled path m endless returns fresh => exact ⟨_, rfl⟩

end DesignTokens.Token.Tree
