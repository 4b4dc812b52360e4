import DesignTokens.Proofs.Token.Resolution

/-!
One resolver for many calls. A visit leaves behind what it met, and following a path takes that back,
whether it succeeded or not; so a call on a resolver that was used before is answered as on a new one.
An alias for a path is followed like the path itself.
-/

namespace DesignTokens.Token

namespace Resolver

inductive Call where
  | token (path : String)
  | value (declared : Document)

def perform (resolver : Resolver) : Call → Except TokenError Scalar × Resolver
  | .token path => resolver.resolveAt path
  | .value declared => resolver.resolve declared

def performAll (resolver : Resolver) : List Call → List (Except TokenError Scalar) × Resolver
  | [] => ([], resolver)
  | call :: rest =>
      let (answer, next) := resolver.perform call
      let (answers, last) := next.performAll rest
      (answer :: answers, last)

end Resolver

variable {tree : Tree} {start path : Path} {text other reference segment : String}
  {visited : List Path} {resolver : Resolver}

/-- A visit only adds to what was met before it. -/
theorem Tree.prefix_follow (tree : Tree) (visited : List Path) (path : Path) (reference : String) :
    visited <+: (tree.follow visited path reference).2 := by
  fun_induction Tree.follow tree visited path reference with
  | case1 => exact List.prefix_rfl
  | case2 => exact List.prefix_rfl
  | case3 => exact List.prefix_rfl
  | case4 => exact List.prefix_rfl
  | case5 visited path reference fresh value found target reads ih =>
      exact (List.prefix_append visited [path]).trans ih

theorem Resolver.follow_snd (resolver : Resolver) (path : Path) (reference : String) :
    (resolver.follow path reference).2 = resolver := by
  have kept := resolver.tree.prefix_follow resolver.inProgress path reference
  rw [Resolver.follow]
  exact congrArg (Resolver.mk resolver.tree) (List.prefix_iff_eq_take.mp kept).symm

theorem Resolver.perform_snd (resolver : Resolver) (call : Call) :
    (resolver.perform call).2 = resolver := by
  cases call with
  | token path => exact resolver.follow_snd _ _
  | value declared =>
      rw [perform, resolve]
      split
      · rfl
      · rfl
      · exact resolver.follow_snd _ _

theorem Resolver.performAll_eq (resolver : Resolver) (calls : List Call) :
    resolver.performAll calls = (calls.map fun call => (resolver.perform call).1, resolver) := by
  induction calls with
  | nil => rfl
  | cons call rest ih =>
      have answered : resolver.perform call = ((resolver.perform call).1, resolver) :=
        Prod.ext rfl (resolver.perform_snd call)
      rw [performAll, answered]
      simp only [ih, List.map_cons]

namespace Tree

theorem Outcome.of_asked {result : Except TokenError Scalar}
    (outcome : tree.Outcome start text result) (walked : ∀ segment, ¬ tree.Breaks start segment)
    (other : String) : tree.Outcome start other result := by
  cases outcome with
  | circled path m endless returns fresh => exact .circled path m endless returns fresh
  | @ended n path reference result reached asked ends =>
      cases n with
      | succ n => exact .ended reached asked ends
      | zero =>
          cases reached
          have asks : tree.Asks start other 0 other := rfl
          cases ends with
          | literal declares reads => exact .ended rfl asks (.literal declares reads)
          | broken breaks => exact absurd breaks (walked _)
          | undeclared node => exact .ended rfl asks (.undeclared node)
          | shapeless declares shape => exact .ended rfl asks (.shapeless declares shape)

theorem Outcome.of_breaks (breaks : tree.Breaks start segment) (text : String) :
    tree.Outcome start text (.error (.pathNotFound text segment)) :=
  .ended (n := 0) rfl rfl (.broken breaks)

end Tree

theorem Path.ofAlias?_braced (text : String) :
    Path.ofAlias? ("\x7b" ++ text ++ "\x7d") = some (.ofText text) := by
  have chars : ("\x7b" ++ text ++ "\x7d").toList = aliasOpen :: (text.toList ++ [aliasClose]) := by
    simp [aliasOpen, aliasClose]
  rw [Path.ofAlias?, aliasTarget?, chars]
  simp

/--
A resolver answers every call of a run, whatever failed before, as a new one does. For a path in braces
it gives what it gives for the path; where the path itself cannot be walked, each of the two is
reported as it was written.
-/
theorem Resolver.performAll_spec (tree : Tree) :
    (∀ calls, ((new tree).performAll calls).1 = calls.map fun call => ((new tree).perform call).1) ∧
    ∀ text,
      (∀ segment, tree.Breaks (.ofText text) segment →
        tree.resolveAt text = .error (.pathNotFound text segment) ∧
        tree.resolve (.text ("\x7b" ++ text ++ "\x7d")) =
          .error (.pathNotFound ("\x7b" ++ text ++ "\x7d") segment)) ∧
      ((∀ segment, ¬ tree.Breaks (.ofText text) segment) →
        tree.resolve (.text ("\x7b" ++ text ++ "\x7d")) = tree.resolveAt text) := by
  refine ⟨fun calls => congrArg Prod.fst ((new tree).performAll_eq calls), fun text => ?_⟩
  have direct := tree.resolveAt_outcome text
  have braced := tree.resolve_outcome (Path.ofAlias?_braced text)
  constructor
  · intro segment breaks
    exact ⟨direct.unique (.of_breaks breaks _), braced.unique (.of_breaks breaks _)⟩
  · intro walked
    exact braced.unique (direct.of_asked walked _)

def loopAndColor : Tree := ⟨[
  ("Loop", .object [(valueKey, .text "\x7bLoop\x7d")]),
  ("Ink", .object [(valueKey, .text "\x7bBlack\x7d")]),
  ("Black", .object [(valueKey, .text "#000000")])]⟩

theorem performAll_after_cycle :
    ((Resolver.new loopAndColor).performAll [.token "Loop", .token "Ink"]).1 =
      [.error (.cyclic ["Loop", "Loop"]), .ok (.text "#000000")] ∧
    loopAndColor.Breaks (.ofText "None") "None" ∧
    loopAndColor.resolve (.text "\x7bNone\x7d") = .error (.pathNotFound "\x7bNone\x7d" "None") ∧
    (∀ segment, ¬ loopAndColor.Breaks (.ofText "Loop") segment) ∧
    loopAndColor.resolve (.text "\x7bLoop\x7d") = loopAndColor.resolveAt "Loop" := by
  obtain ⟨shared, alike⟩ := Resolver.performAll_spec loopAndColor
  have missing : loopAndColor.Breaks (.ofText "None") "None" :=
    ⟨[], [], loopAndColor.toDocument, by cbv, rfl, by cbv⟩
  have there : ∀ segment, ¬ loopAndColor.Breaks (.ofText "Loop") segment := by
    intro segment breaks
    have declares : loopAndColor.value? (.ofText "Loop") = some (.text "\x7bLoop\x7d") := by cbv
    rw [breaks.value?_eq_none] at declares
    cases declares
  have cycle : ((Resolver.new loopAndColor).perform (.token "Loop")).1 =
      .error (.cyclic ["Loop", "Loop"]) := by cbv
  have color : ((Resolver.new loopAndColor).perform (.token "Ink")).1 =
      .ok (.text "#000000") := by cbv
  refine ⟨?_, missing, ((alike "None").1 _ missing).2, there, (alike "Loop").2 there⟩
  rw [shared, List.map_cons, List.map_singleton, cycle, color]

end DesignTokens.Token
