import DesignTokens.Proofs.Token.Listing
import DesignTokens.Proofs.Token.Reuse

/-!
Texts in the place of paths. Every text is the text of exactly one path without dots in its segments, and
every alias is the alias of exactly one such path, so paths may be compared and quoted by their texts.
-/

namespace DesignTokens.Token

variable {path other : Path} {visited : List Path} {text : String}

/-- The paths that texts are read as: one segment at least, and no dot within a segment. -/
structure Path.Proper (path : Path) : Prop where
  filled : path.segments ≠ []
  dotless : path.Dotless

theorem Path.proper_ofText (text : String) : (ofText text).Proper where
  filled := Text.split_ne_nil '.' text
  dotless := fun _ cut => Text.not_mem_of_mem_split cut

theorem Path.Proper.ofText_text (proper : path.Proper) : ofText path.text = path :=
  (reread_eq_self_iff proper.filled).mpr proper.dotless

theorem Path.Proper.text_eq_iff (proper : path.Proper) (proper' : other.Proper) :
    path.text = other.text ↔ path = other := by
  constructor
  · intro same
    rw [← proper.ofText_text, same, proper'.ofText_text]
  · exact congrArg Path.text

theorem Path.Proper.text_mem_iff (asked : path.Proper) (proper : ∀ met ∈ visited, met.Proper) :
    path.text ∈ visited.map Path.text ↔ path ∈ visited := by
  constructor
  · intro again
    obtain ⟨met, listed, same⟩ := List.mem_map.mp again
    exact ((proper met listed).text_eq_iff asked).mp same ▸ listed
  · exact List.mem_map_of_mem

theorem Path.toAlias_eq (path : Path) : path.toAlias = "\x7b" ++ path.text ++ "\x7d" := by
  apply String.toList_inj.mp
  simp [toAlias, aliasOpen, aliasClose]

theorem Path.Proper.ofAlias?_toAlias (proper : path.Proper) : ofAlias? path.toAlias = some path := by
  rw [toAlias_eq, ofAlias?_braced, proper.ofText_text]

theorem Path.ofAlias?_eq_some_iff : ofAlias? text = some path ↔ path.Proper ∧ path.toAlias = text := by
  constructor
  · intro found
    rcases Option.map_eq_some_iff.mp found with ⟨inner, -, rfl⟩
    exact ⟨proper_ofText inner, toAlias_of_ofAlias? found⟩
  · rintro ⟨proper, rfl⟩
    exact proper.ofAlias?_toAlias

theorem isAlias_iff_exists : isAlias text = true ↔ ∃ path, Path.ofAlias? text = some path := by
  rw [← Option.isSome_iff_exists, Path.ofAlias?, Option.isSome_map, isAlias]

theorem isAlias_iff_braced : isAlias text = true ↔ ∃ inner, text = "\x7b" ++ inner ++ "\x7d" := by
  rw [isAlias_iff_exists]
  constructor
  · rintro ⟨path, found⟩
    rcases Path.ofAlias?_eq_some_iff.mp found with ⟨-, rfl⟩
    exact ⟨path.text, path.toAlias_eq⟩
  · rintro ⟨inner, rfl⟩
    exact ⟨Path.ofText inner, Path.ofAlias?_braced inner⟩

/--
A path is written as its segments with dots between them. Reading a text as a path and writing a path as a
text are inverse, for plain texts and for aliases alike, whatever characters stand in them.
-/
theorem Path.text_spec :
    (∀ text, (ofText text).Proper ∧ (ofText text).text = text) ∧
      (∀ path : Path, path.text = String.intercalate "." path.segments) ∧
      (∀ path : Path, path.Proper → ofText path.text = path) ∧
      (∀ text other, (ofText text).text = (ofText other).text → ofText text = ofText other) ∧
      (∀ text, isAlias text = true ↔ ∃ path, ofAlias? text = some path) ∧
      (∀ text, isAlias text = true ↔ ∃ inner, text = "\x7b" ++ inner ++ "\x7d") ∧
      (∀ text path, ofAlias? text = some path → path.Proper ∧ path.toAlias = text) ∧
      ∀ path : Path, path.Proper → ofAlias? path.toAlias = some path := by
  refine ⟨fun text => ⟨proper_ofText text, text_ofText text⟩,
    fun path => Text.join_eq_intercalate '.' path.segments, fun _ proper => proper.ofText_text, ?_,
    fun _ => isAlias_iff_exists, fun _ => isAlias_iff_braced, fun _ _ => ofAlias?_eq_some_iff.mp,
    fun _ proper => proper.ofAlias?_toAlias⟩
  intro text other same
  exact ((proper_ofText text).text_eq_iff (proper_ofText other)).mp same

theorem Path.text_of_braces :
    (Path.mk ["\x7bInk", "", "café\x7d"]).Proper ∧
      ofText "\x7bInk..café\x7d" = ⟨["\x7bInk", "", "café\x7d"]⟩ ∧
      ofAlias? "\x7bInk..café\x7d" = some ⟨["Ink", "", "café"]⟩ ∧
      (Path.mk ["Ink", "", "café"]).toAlias = "\x7bInk..café\x7d" ∧
      ofAlias? "\x7b\x7bInk..café\x7d\x7d" = some ⟨["\x7bInk", "", "café\x7d"]⟩ := by
  obtain ⟨-, -, reads, -, -, -, quotes, names⟩ := text_spec
  have proper : (Path.mk ["\x7bInk", "", "café\x7d"]).Proper := ⟨by decide, by simp [Dotless]⟩
  have plain : (Path.mk ["\x7bInk", "", "café\x7d"]).text = "\x7bInk..café\x7d" := by cbv
  have braced : (Path.mk ["\x7bInk", "", "café\x7d"]).toAlias = "\x7b\x7bInk..café\x7d\x7d" := by cbv
  have found : ofAlias? "\x7bInk..café\x7d" = some ⟨["Ink", "", "café"]⟩ := by cbv
  exact ⟨proper, plain ▸ reads _ proper, found, (quotes _ _ found).2, braced ▸ names _ proper⟩

end DesignTokens.Token
