import DesignTokens.Proofs.Text.Split
import DesignTokens.Proofs.Token.Everything
import DesignTokens.Proofs.Token.Outermost
import DesignTokens.Proofs.Token.Resolution

/-!
The listed paths as texts. A text is read as the place it was written for if no name on the way holds a
dot; a name with a dot is read as several, and then two tokens may be listed under one text.
-/

namespace DesignTokens.Token

def Path.Dotless (path : Path) : Prop := ∀ segment ∈ path.segments, '.' ∉ segment.toList

/-- The path that the text of a path is read as. -/
def Path.reread (path : Path) : Path := .ofText path.text

theorem Path.segments_reread {path : Path} (filled : path.segments ≠ []) :
    path.reread.segments = path.segments.flatMap (Text.split '.') :=
  Text.split_join '.' filled

theorem Path.reread_eq_self_iff {path : Path} (filled : path.segments ≠ []) :
    path.reread = path ↔ path.Dotless := by
  rw [Dotless, ← Text.flatMap_split_eq_self_iff, ← segments_reread filled]
  exact ⟨congrArg Path.segments, congrArg Path.mk⟩

theorem Path.text_reread (path : Path) : path.reread.text = path.text := Text.join_split '.' path.text

theorem Path.text_eq_iff {path other : Path} : path.text = other.text ↔ path.reread = other.reread := by
  constructor
  · intro same
    rw [reread, same, reread]
  · intro same
    rw [← text_reread path, same, text_reread]

namespace Tree

variable {tree : Tree} {place : List String} {places : List (List String)}

def Undotted (tree : Tree) : Prop := ∀ place, tree.Outermost place → (Path.mk place).Dotless

/-- How the text that is listed for a token is read. -/
structure Rereads (tree : Tree) (path : Path) : Prop where
  cut : path.reread.segments = path.segments.flatMap (Text.split '.')
  whole : path.reread = path ↔ path.Dotless
  declared : ∃ value, tree.value? path = some value ∧
    (path.Dotless → ∀ reference, tree.declared path.reread reference = .ok value)

theorem Outermost.value? (outer : tree.Outermost place) :
    ∃ value, tree.value? ⟨place⟩ = some value := by
  obtain ⟨node, reached, value, declares⟩ := outer.token
  refine ⟨value, ?_⟩
  rw [value?_eq, reached]
  exact declares

theorem Outermost.rereads (outer : tree.Outermost place) : tree.Rereads ⟨place⟩ := by
  obtain ⟨value, declares⟩ := outer.value?
  refine ⟨Path.segments_reread outer.filled, Path.reread_eq_self_iff outer.filled, value, declares, ?_⟩
  intro dotless reference
  rw [(Path.reread_eq_self_iff outer.filled).mpr dotless]
  exact declared_eq_ok.mpr declares

theorem Undotted.reread (undotted : tree.Undotted) (outer : tree.Outermost place) :
    (Path.mk place).reread = ⟨place⟩ :=
  (Path.reread_eq_self_iff outer.filled).mpr (undotted place outer)

theorem nodup_tokenPaths_iff (texts : tree.tokenPaths = places.map fun place => (Path.mk place).text) :
    tree.tokenPaths.Nodup ↔
      places.Pairwise fun place other => (Path.mk place).reread ≠ (Path.mk other).reread := by
  rw [texts, List.Nodup, List.pairwise_map]
  simp only [ne_eq, Path.text_eq_iff]

theorem Lists.nodup_tokenPaths (lists : tree.Lists places)
    (texts : tree.tokenPaths = places.map fun place => (Path.mk place).text)
    (undotted : tree.Undotted) : tree.tokenPaths.Nodup := by
  rw [nodup_tokenPaths_iff texts]
  apply lists.nodup.imp_of_mem
  intro place other listed listed' different
  rw [undotted.reread ((lists.outermost place).mp listed),
    undotted.reread ((lists.outermost other).mp listed')]
  exact fun same => different (congrArg Path.segments same)

/--
Each outermost token is listed once, by a text that is read as the path to it if no name on the way holds
a dot. Where texts fall together fewer tokens are resolved than listed.
-/
theorem tokenPaths_spec (tree : Tree) (distinct : tree.toDocument.Distinct) :
    ∃ places, tree.Lists places ∧
      tree.tokenPaths = places.map (fun place => (Path.mk place).text) ∧
      (∀ place ∈ places, tree.Rereads ⟨place⟩) ∧
      (tree.tokenPaths.Nodup ↔
        places.Pairwise fun place other => (Path.mk place).reread ≠ (Path.mk other).reread) ∧
      (tree.Undotted → tree.tokenPaths.Nodup) ∧
      ∀ resolved, tree.resolveAll = .ok resolved →
        (resolved.names = tree.tokenPaths ↔ tree.tokenPaths.Nodup) ∧
        ∀ place ∈ places, ∃ scalar, ((Path.mk place).text, scalar) ∈ resolved ∧
          tree.Outcome (Path.mk place).reread (Path.mk place).text (.ok scalar) := by
  have lists := lists_outermostIn distinct
  have texts := tree.tokenPaths_eq
  refine ⟨outermostIn tree.root, lists, texts, ?_, nodup_tokenPaths_iff texts,
    lists.nodup_tokenPaths texts, ?_⟩
  · intro place listed
    exact ((lists.outermost place).mp listed).rereads
  · intro resolved done
    refine ⟨names_resolveAll_iff done, ?_⟩
    intro place listed
    have told : (Path.mk place).text ∈ tree.tokenPaths :=
      texts ▸ List.mem_map.mpr ⟨place, listed, rfl⟩
    obtain ⟨scalar, reads⟩ := exists_resolvePaths.mp ⟨resolved, done⟩ _ told
    exact ⟨scalar, (mem_resolveAll done).mpr ⟨told, reads⟩, reads ▸ resolveAt_outcome tree _⟩

def halfGray : Tree := ⟨[("Gray", .object [("0.5", .object [(valueKey, .text "#808080")])])]⟩

def twoGrays : Tree :=
  ⟨[("Gray", .object [("0.5", .object [(valueKey, .text "#808080")]),
    ("0", .object [("5", .object [(valueKey, .text "#0D0D0D")])])])]⟩

theorem tokenPaths_of_twoGrays :
    twoGrays.toDocument.Distinct ∧ twoGrays.tokenPaths = ["Gray.0.5", "Gray.0.5"] ∧
      (∃ places, twoGrays.Lists places ∧ ∀ place ∈ places, twoGrays.Rereads ⟨place⟩) ∧
      ∀ resolved, twoGrays.resolveAll = .ok resolved → resolved.names ≠ ["Gray.0.5", "Gray.0.5"] := by
  have distinct : twoGrays.toDocument.Distinct := by
    simp [twoGrays, toDocument, Document.Distinct, Document.DistinctEntries, Entries.names, valueKey]
  have listed : twoGrays.tokenPaths = ["Gray.0.5", "Gray.0.5"] := by cbv
  obtain ⟨places, lists, -, rereads, -, -, resolves⟩ := tokenPaths_spec twoGrays distinct
  refine ⟨distinct, listed, ⟨places, lists, rereads⟩, ?_⟩
  intro resolved done same
  have fallen := (resolves resolved done).1.mp (same.trans listed.symm)
  simp [listed] at fallen

/-- A listed text may lead nowhere, or to another token, whose value is then all that is reported. -/
theorem dotted_names_not_addressed :
    halfGray.tokenPaths = ["Gray.0.5"] ∧
      halfGray.value? ⟨["Gray", "0.5"]⟩ = some (.text "#808080") ∧
      halfGray.declared (.ofText "Gray.0.5") "Gray.0.5" = .error (.pathNotFound "Gray.0.5" "0") ∧
      twoGrays.tokenPaths = ["Gray.0.5", "Gray.0.5"] ∧
      twoGrays.value? ⟨["Gray", "0.5"]⟩ = some (.text "#808080") ∧
      twoGrays.declared (.ofText "Gray.0.5") "Gray.0.5" = .ok (.text "#0D0D0D") ∧
      twoGrays.resolveAll = .ok [("Gray.0.5", .text "#0D0D0D")] := by
  refine ⟨by cbv, by cbv, by cbv, by cbv, by cbv, by cbv, by cbv⟩

/--
Where no name on the way to a token holds a dot, all outermost tokens are resolved, each by its own path
and in the order of the document, or the first one that does not resolve is reported.
-/
theorem resolveAll_spec (tree : Tree) (distinct : tree.toDocument.Distinct)
    (undotted : tree.Undotted) :
    (∃ places, tree.Lists places ∧
        tree.tokenPaths = places.map (fun place => (Path.mk place).text) ∧
        tree.tokenPaths.map Path.ofText = places.map Path.mk) ∧
      tree.tokenPaths.Nodup ∧
      ((∃ resolved, tree.resolveAll = .ok resolved) ↔
        ∀ text ∈ tree.tokenPaths, ∃ scalar, tree.resolveAt text = .ok scalar) ∧
      (∀ resolved, tree.resolveAll = .ok resolved → resolved.names = tree.tokenPaths ∧
        ∀ text scalar, (text, scalar) ∈ resolved → tree.resolveAt text = .ok scalar) ∧
      ∀ e, tree.resolveAll = .error e ↔ ∃ before text after,
        tree.tokenPaths = before ++ text :: after ∧
        (∀ earlier ∈ before, ∃ scalar, tree.resolveAt earlier = .ok scalar) ∧
        tree.resolveAt text = .error e := by
  have lists := lists_outermostIn distinct
  have texts := tree.tokenPaths_eq
  have nodup := lists.nodup_tokenPaths texts undotted
  refine ⟨⟨outermostIn tree.root, lists, texts, ?_⟩, nodup, exists_resolvePaths, ?_,
    fun _ => resolvePaths_eq_error⟩
  · rw [texts, List.map_map]
    apply List.map_congr_left
    intro place listed
    exact undotted.reread ((lists.outermost place).mp listed)
  · intro resolved done
    refine ⟨(names_resolveAll_iff done).mpr nodup, ?_⟩
    intro text scalar present
    exact ((mem_resolveAll done).mp present).2

def sketch : Tree := ⟨[("$note", .text "draft"),
  ("Ink", .object [("note", .bool true), ("dark", .object [(valueKey, .text "\x7bPaper\x7d"),
    ("deep", .object [(valueKey, .text "#000000")])]), ("faded", .object [])]),
  ("Paper", .object [(valueKey, .text "#FFFFFF")])]⟩

theorem sketch_undotted (distinct : sketch.toDocument.Distinct) : sketch.Undotted := by
  have places : outermostIn sketch.root = [["Ink", "dark"], ["Paper"]] := by cbv
  intro place outer
  rw [← mem_outermostIn_iff distinct, places] at outer
  simp only [List.mem_cons, List.not_mem_nil, or_false] at outer
  rcases outer with rfl | rfl <;> simp [Path.Dotless]

theorem resolveAll_of_sketch :
    sketch.toDocument.Distinct ∧ sketch.Undotted ∧ sketch.tokenPaths = ["Ink.dark", "Paper"] ∧
      (∃ places, sketch.Lists places ∧
        ["Ink.dark", "Paper"].map Path.ofText = places.map Path.mk) ∧
      ∃ resolved, sketch.resolveAll = .ok resolved ∧ resolved.names = ["Ink.dark", "Paper"] := by
  have distinct : sketch.toDocument.Distinct := by
    simp [sketch, toDocument, Document.Distinct, Document.DistinctEntries, Entries.names, valueKey]
  have undotted := sketch_undotted distinct
  have listed : sketch.tokenPaths = ["Ink.dark", "Paper"] := by cbv
  obtain ⟨⟨places, lists, -, read⟩, -, succeeds, entries, -⟩ :=
    resolveAll_spec sketch distinct undotted
  rw [listed] at read succeeds entries
  have each : ∀ text ∈ ["Ink.dark", "Paper"], ∃ scalar, sketch.resolveAt text = .ok scalar := by
    have dark : sketch.resolveAt "Ink.dark" = .ok (.text "#FFFFFF") := by cbv
    have paper : sketch.resolveAt "Paper" = .ok (.text "#FFFFFF") := by cbv
    simp [dark, paper]
  obtain ⟨resolved, done⟩ := succeeds.mpr each
  exact ⟨distinct, undotted, listed, ⟨places, lists, read⟩, resolved, done, (entries resolved done).1⟩

end Tree

end DesignTokens.Token
