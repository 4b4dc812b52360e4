import DesignTokens.Proofs.Token.PathText
import Mathlib.Data.List.Nodup
import Mathlib.Data.List.Perm.Subperm

/-!
How often the loop of a resolution turns. Every turn but the last adds the text of another token to those
that were met, so there is at most one turn for each token of the tree and one more, and a cycle is
reported with no more texts than that.
-/

namespace DesignTokens.Token

/-- Where the loop stands: the texts of the paths met so far, and the path that some text asks for. -/
structure Walk where
  met : List String
  path : Path
  reference : String

namespace Tree

def turn (tree : Tree) (walk : Walk) : Except TokenError Scalar ⊕ Walk :=
  if walk.path.text ∈ walk.met then .inl (.error (.cyclic (walk.met ++ [walk.path.text])))
  else match tree.declared walk.path walk.reference with
    | .error e => .inl (.error e)
    | .ok value =>
        match Declared.ofDocument walk.path.text value with
        | .error e => .inl (.error e)
        | .ok (.concrete scalar) => .inl (.ok scalar)
        | .ok (.reference target) => .inr ⟨walk.met ++ [walk.path.text], target, target.toAlias⟩

inductive Turns (tree : Tree) : Nat → Walk → Except TokenError Scalar → Prop
  | last {walk : Walk} {result : Except TokenError Scalar} (ends : tree.turn walk = .inl result) :
      Turns tree 1 walk result
  | next {n : Nat} {walk further : Walk} {result : Except TokenError Scalar}
      (leads : tree.turn walk = .inr further) (later : Turns tree n further result) :
      Turns tree (n + 1) walk result

inductive Answers (tree : Tree) : Resolver.Call → Nat → Except TokenError Scalar → Prop
  | token {text : String} {n : Nat} {result : Except TokenError Scalar}
      (turns : tree.Turns n ⟨[], .ofText text, text⟩ result) : Answers tree (.token text) n result
  | followed {s : String} {target : Path} {n : Nat} {result : Except TokenError Scalar}
      (names : Path.ofAlias? s = some target) (turns : tree.Turns n ⟨[], target, s⟩ result) :
      Answers tree (.value (.text s)) n result
  | literal {value : Document} {scalar : Scalar} (reads : Literal value scalar) :
      Answers tree (.value value) 0 (.ok scalar)
  | shapeless {value : Document} (shape : Shapeless value) :
      Answers tree (.value value) 0 (.error (.unsupportedValue "" value))

mutual

def tokensBelow : Document → Nat
  | .object entries => tokensIn entries
  | _ => 0

def tokensIn : List (String × Document) → Nat
  | [] => 0
  | (_, value) :: rest =>
      (if (value.field? valueKey).isSome then 1 else 0) + tokensBelow value + tokensIn rest

end

def tokenCount (tree : Tree) : Nat := tokensBelow tree.toDocument

end Tree

/-- The texts that were met are those of different tokens. -/
structure Walk.Sound (walk : Walk) (tree : Tree) : Prop where
  tokens : ∀ text ∈ walk.met, Text.split '.' text ∈ Tree.placesIn tree.root
  distinct : walk.met.Nodup
  asked : walk.path.Proper

def Returns (chain : List String) : Prop :=
  ∃ met last, chain = met ++ [last] ∧ met.Nodup ∧ last ∈ met

variable {tree : Tree} {walk further : Walk} {n m : Nat} {result other : Except TokenError Scalar}
  {visited : List Path} {path : Path} {reference : String} {value : Document} {chain : List String}
  {call : Resolver.Call}

namespace Tree

theorem length_placesIn {entries : Entries Document}
    (each : ∀ entry ∈ entries, (places entry.2).length =
      (if (entry.2.field? valueKey).isSome then 1 else 0) + tokensBelow entry.2) :
    (placesIn entries).length = tokensIn entries := by
  induction entries with
  | nil => rfl
  | cons head rest ih =>
      obtain ⟨here, later⟩ := List.forall_mem_cons.mp each
      rw [placesIn, List.length_append, List.length_map, here, ih later, tokensIn]

theorem length_places (node : Document) : (places node).length =
    (if (node.field? valueKey).isSome then 1 else 0) + tokensBelow node := by
  induction node using Document.induction with
  | object entries ih =>
      have same : declaresValue entries = ((Document.object entries).field? valueKey).isSome := rfl
      rw [places, List.length_append, length_placesIn ih, tokensBelow, same]
      split <;> rfl
  | _ => rfl

theorem length_placesIn_root (tree : Tree) : (placesIn tree.root).length = tree.tokenCount :=
  length_placesIn fun entry _ => length_places entry.2

theorem mem_placesIn_root (proper : path.Proper) (declares : tree.value? path = some value) :
    path.segments ∈ placesIn tree.root := by
  have found : tree.declared path path.text = .ok value := declared_eq_ok.mpr declares
  have listed := mem_places_of_declared found
  rw [toDocument, places] at listed
  rcases List.mem_append.mp listed with root | below
  · split at root
    · exact absurd (List.mem_singleton.mp root) proper.filled
    · cases root
  · exact below

/-- Everything a turn can do: find a cycle, end in another way, or follow the alias of a token. -/
theorem turn_cases (tree : Tree) (walk : Walk) :
    (walk.path.text ∈ walk.met ∧
      tree.turn walk = .inl (.error (.cyclic (walk.met ++ [walk.path.text])))) ∨
    (∃ result, tree.turn walk = .inl result ∧ ∀ chain, result ≠ .error (.cyclic chain)) ∨
    (walk.path.text ∉ walk.met ∧ ∃ s target, tree.value? walk.path = some (.text s) ∧
      Path.ofAlias? s = some target ∧
      tree.turn walk = .inr ⟨walk.met ++ [walk.path.text], target, s⟩) := by
  by_cases again : walk.path.text ∈ walk.met
  · exact .inl ⟨again, by rw [turn, if_pos again]⟩
  · rw [turn, if_neg again]
    cases found : tree.declared walk.path walk.reference with
    | error e =>
        refine .inr (.inl ⟨.error e, rfl, ?_⟩)
        rcases declared_eq_error found with ⟨segment, rfl, -⟩ | ⟨rfl, -⟩ <;> rintro chain ⟨⟩
    | ok value =>
        rcases classify walk.path.text value with ⟨scalar, said, -⟩ | ⟨s, target, said, rfl, names⟩ |
          ⟨said, -⟩
        · refine .inr (.inl ⟨.ok scalar, ?_, by rintro chain ⟨⟩⟩)
          simp only [said]
        · refine .inr (.inr ⟨again, s, target, declared_eq_ok.mp found, names, ?_⟩)
          simp only [said, Path.toAlias_of_ofAlias? names]
        · refine .inr (.inl ⟨.error (.unsupportedValue walk.path.text value), ?_, by rintro chain ⟨⟩⟩)
          simp only [said]

theorem Turns.unique (turns : tree.Turns n walk result) (others : tree.Turns m walk other) :
    n = m ∧ result = other := by
  induction turns generalizing m with
  | last ends =>
      cases others with
      | last ends' =>
          rw [ends] at ends'
          exact ⟨rfl, Sum.inl.inj ends'⟩
      | next leads later => simp [leads] at ends
  | next leads later ih =>
      cases others with
      | last ends => simp [leads] at ends
      | next leads' later' =>
          rw [leads] at leads'
          obtain rfl := Sum.inr.inj leads'
          obtain ⟨rfl, same⟩ := ih later'
          exact ⟨rfl, same⟩

theorem exists_turns (proper : ∀ met ∈ visited, met.Proper) (asked : path.Proper) :
    ∃ n, tree.Turns n ⟨visited.map Path.text, path, reference⟩
      (tree.follow visited path reference).1 := by
  -- The loop compares texts and the recursion paths, which is the same among proper paths.
  fun_induction Tree.follow tree visited path reference with
  | case1 visited path reference again =>
      refine ⟨1, .last ?_⟩
      rw [turn, if_pos ((asked.text_mem_iff proper).mpr again), List.map_append, List.map_singleton]
  | case2 visited path reference fresh e failed =>
      refine ⟨1, .last ?_⟩
      rw [turn, if_neg (mt (asked.text_mem_iff proper).mp fresh)]
      simp only [failed]
  | case3 visited path reference fresh value found e failed =>
      refine ⟨1, .last ?_⟩
      rw [turn, if_neg (mt (asked.text_mem_iff proper).mp fresh)]
      simp only [found, failed]
  | case4 visited path reference fresh value found scalar reads =>
      refine ⟨1, .last ?_⟩
      rw [turn, if_neg (mt (asked.text_mem_iff proper).mp fresh)]
      simp only [found, reads]
  | case5 visited path reference fresh value found target reads ih =>
      have leads : tree.turn ⟨visited.map Path.text, path, reference⟩ =
          .inr ⟨(visited ++ [path]).map Path.text, target, target.toAlias⟩ := by
        rw [turn, if_neg (mt (asked.text_mem_iff proper).mp fresh), List.map_append,
          List.map_singleton]
        simp only [found, reads]
      have named : target.Proper := by
        rcases classify path.text value with ⟨_, said, _⟩ | ⟨s, _, said, _, names⟩ | ⟨said, _⟩ <;>
          rw [said] at reads <;> cases reads
        exact (Path.ofAlias?_eq_some_iff.mp names).1
      have grown := List.forall_mem_append.mpr ⟨proper, List.forall_mem_singleton.mpr asked⟩
      obtain ⟨n, later⟩ := ih grown named
      exact ⟨n + 1, .next leads later⟩

theorem exists_turns_resolver (tree : Tree) (asked : path.Proper) (reference : String) :
    ∃ n, tree.Turns n ⟨[], path, reference⟩ ((Resolver.new tree).follow path reference).1 :=
  exists_turns (List.forall_mem_nil _) asked

theorem exists_answers (tree : Tree) (call : Resolver.Call) :
    ∃ n, tree.Answers call n ((Resolver.new tree).perform call).1 := by
  cases call with
  | token text =>
      obtain ⟨n, turns⟩ := tree.exists_turns_resolver (Path.proper_ofText text) text
      exact ⟨n, .token turns⟩
  | value declared =>
      rw [Resolver.perform, Resolver.resolve]
      rcases classify "" declared with ⟨scalar, said, reads⟩ | ⟨s, target, said, rfl, names⟩ |
        ⟨said, shape⟩
      · simp only [said]
        exact ⟨0, .literal reads⟩
      · have asked := Path.ofAlias?_eq_some_iff.mp names
        obtain ⟨n, turns⟩ := tree.exists_turns_resolver asked.1 s
        simp only [said, asked.2]
        exact ⟨n, .followed names turns⟩
      · simp only [said]
        exact ⟨0, .shapeless shape⟩

theorem Answers.unique (answers : tree.Answers call n result) (others : tree.Answers call m other) :
    n = m ∧ result = other := by
  cases answers with
  | token turns =>
      cases others with
      | token turns' => exact turns.unique turns'
  | followed names turns =>
      cases others with
      | followed names' turns' =>
          rw [names] at names'
          cases names'
          exact turns.unique turns'
      | literal reads => cases reads.target?_eq_none.symm.trans names
      | shapeless shape => cases shape.2.symm.trans names
  | literal reads =>
      cases others with
      | followed names turns => cases reads.target?_eq_none.symm.trans names
      | literal reads' => exact ⟨rfl, congrArg _ (reads.unique reads')⟩
      | shapeless shape => exact absurd reads (shape.1 _)
  | shapeless shape =>
      cases others with
      | followed names turns => cases shape.2.symm.trans names
      | literal reads => exact absurd reads (shape.1 _)
      | shapeless shape' => exact ⟨rfl, rfl⟩

end Tree

namespace Walk

theorem Sound.first (asked : path.Proper) : (Walk.mk [] path reference).Sound tree :=
  ⟨List.forall_mem_nil _, List.nodup_nil, asked⟩

theorem Sound.length_le (sound : walk.Sound tree) : walk.met.length ≤ tree.tokenCount := by
  have apart : Function.Injective (Text.split '.') := Function.LeftInverse.injective (Text.join_split '.')
  have distinct : (walk.met.map (Text.split '.')).Nodup := List.Nodup.map apart sound.distinct
  have within : walk.met.map (Text.split '.') ⊆ Tree.placesIn tree.root := by
    intro place listed
    obtain ⟨text, met, rfl⟩ := List.mem_map.mp listed
    exact sound.tokens text met
  calc
    walk.met.length = (walk.met.map (Text.split '.')).length := (List.length_map _).symm
    _ ≤ (Tree.placesIn tree.root).length := (List.Nodup.subperm distinct within).length_le
    _ = tree.tokenCount := tree.length_placesIn_root

theorem Sound.turn (sound : walk.Sound tree) (leads : tree.turn walk = .inr further) :
    further.Sound tree ∧ further.met.length = walk.met.length + 1 := by
  rcases tree.turn_cases walk with ⟨-, ends⟩ | ⟨result, ends, -⟩ |
    ⟨fresh, s, target, declares, names, follows⟩
  · simp [ends] at leads
  · simp [ends] at leads
  · rw [follows] at leads
    obtain rfl := Sum.inr.inj leads
    have here : Text.split '.' walk.path.text ∈ Tree.placesIn tree.root := by
      have place := Tree.mem_placesIn_root sound.asked declares
      rwa [← sound.asked.ofText_text] at place
    refine ⟨⟨?_, ?_, (Path.ofAlias?_eq_some_iff.mp names).1⟩, ?_⟩
    · exact List.forall_mem_append.mpr ⟨sound.tokens, List.forall_mem_singleton.mpr here⟩
    · rw [← List.concat_eq_append]
      exact List.Nodup.concat fresh sound.distinct
    · rw [List.length_append, List.length_singleton]

/-- Turns that are made and texts that were met are never more than the tokens and one. -/
theorem Sound.turns_le (sound : walk.Sound tree) (turns : tree.Turns n walk result) :
    n + walk.met.length ≤ tree.tokenCount + 1 := by
  induction turns with
  | last ends =>
      have room := sound.length_le
      omega
  | next leads later ih =>
      obtain ⟨sound', more⟩ := sound.turn leads
      have room := ih sound'
      omega

theorem Sound.returns (sound : walk.Sound tree)
    (turns : tree.Turns n walk (.error (.cyclic chain))) :
    Returns chain ∧ chain.length = n + walk.met.length := by
  generalize cyclic : Except.error (TokenError.cyclic chain) = result at turns
  induction turns with
  | @last walk result ends =>
      rcases tree.turn_cases walk with ⟨again, found⟩ | ⟨result', found, never⟩ |
        ⟨-, s, target, -, -, found⟩
      · rw [ends] at found
        cases cyclic.trans (Sum.inl.inj found)
        refine ⟨⟨walk.met, walk.path.text, rfl, sound.distinct, again⟩, ?_⟩
        rw [List.length_append, List.length_singleton, Nat.add_comm]
      · rw [ends] at found
        exact absurd (cyclic.trans (Sum.inl.inj found)).symm (never chain)
      · simp [found] at ends
  | next leads later ih =>
      obtain ⟨sound', more⟩ := sound.turn leads
      obtain ⟨returns, length⟩ := ih sound' cyclic
      exact ⟨returns, by omega⟩

end Walk

namespace Tree

theorem Turns.bounded (turns : tree.Turns n ⟨[], path, reference⟩ result) (asked : path.Proper) :
    n ≤ tree.tokenCount + 1 ∧
      ∀ chain, result = .error (.cyclic chain) → Returns chain ∧ chain.length = n := by
  have sound : (Walk.mk [] path reference).Sound tree := .first asked
  refine ⟨sound.turns_le turns, ?_⟩
  rintro chain rfl
  exact sound.returns turns

theorem Answers.bounded (answers : tree.Answers call n result) :
    n ≤ tree.tokenCount + 1 ∧
      ∀ chain, result = .error (.cyclic chain) → Returns chain ∧ chain.length = n := by
  cases answers with
  | token turns => exact turns.bounded (Path.proper_ofText _)
  | followed names turns => exact turns.bounded (Path.ofAlias?_eq_some_iff.mp names).1
  | literal reads => exact ⟨Nat.zero_le _, by rintro chain ⟨⟩⟩
  | shapeless shape => exact ⟨Nat.zero_le _, by rintro chain ⟨⟩⟩

/--
Every call on a new resolver is answered after a certain number of turns, at most one for each token of the
tree and one more. A cycle is reported with as many texts, all different but for the last, which is one of
the others.
-/
theorem answers_spec (tree : Tree) (call : Resolver.Call) :
    ∃ n ≤ tree.tokenCount + 1,
      (∀ turns result, tree.Answers call turns result ↔
        turns = n ∧ result = ((Resolver.new tree).perform call).1) ∧
      ∀ chain, ((Resolver.new tree).perform call).1 = .error (.cyclic chain) →
        Returns chain ∧ chain.length = n := by
  obtain ⟨n, answers⟩ := tree.exists_answers call
  obtain ⟨bound, returns⟩ := answers.bounded
  refine ⟨n, bound, fun turns result => ⟨fun others => others.unique answers, ?_⟩, returns⟩
  rintro ⟨rfl, rfl⟩
  exact answers

def knot : Tree := ⟨[
  ("Start", .object [(valueKey, .text "\x7bRing.a\x7d")]),
  ("Ring", .object [
    ("a", .object [(valueKey, .text "\x7bRing.b\x7d")]),
    ("b", .object [(valueKey, .text "\x7bRing.a\x7d")])])]⟩

theorem answers_of_knot :
    knot.tokenCount = 3 ∧
      knot.Answers (.token "Start") 4 (.error (.cyclic ["Start", "Ring.a", "Ring.b", "Ring.a"])) ∧
      Returns ["Start", "Ring.a", "Ring.b", "Ring.a"] := by
  have count : knot.tokenCount = 3 := by cbv
  have found : ((Resolver.new knot).perform (.token "Start")).1 =
      .error (.cyclic ["Start", "Ring.a", "Ring.b", "Ring.a"]) := by cbv
  obtain ⟨n, -, answers, cycle⟩ := knot.answers_spec (.token "Start")
  obtain ⟨returns, turns⟩ := cycle _ found
  exact ⟨count, (answers _ _).mpr ⟨turns, found.symm⟩, returns⟩

end Tree

end DesignTokens.Token
