import DesignTokens.Proofs.Build.Reloading
import DesignTokens.Proofs.Build.Success
import DesignTokens.Proofs.Theme.Sample

/-!
Disks on which builds succeed. They hold token files made of the sample tree, each with a text of its
own in all its text tokens, and an empty folder for what is generated.
-/

namespace DesignTokens.Build

open MemoryDisk Theme Token Toml

variable {plan : Plan} {job : Job} {theme : Theme} {text : String} {files : List (String × String)}

/-- A token file whose text tokens all hold the same text. -/
def tokenText (text : String) : String :=
  header ++ "\n\n" ++ (Sheet.ofEntries (sample.tree text).root).text

theorem read_tokenText (text : String) : Toml.read (tokenText text) = some (sample.fill text) := by
  have form : Document.object (sample.tree text).root = sample.fill text :=
    sample.toDocument_tree text
  have writable : (Document.object (sample.tree text).root).Writable 8 :=
    form ▸ Frame.writable_fill sample_check.2
  rw [tokenText, read_headed writable (by decide), form, Frame.arrange_fill sample_check.2]

def tokensFolder (files : List (String × String)) : Node :=
  .folder (files.map fun file => (file.1, .file (tokenText file.2).toUTF8))

/-- Room for generated files next to a place for token files, and whatever else is there. -/
def workplace (tokens : Node) (others : List (String × Node)) (reports : List Report) : MemoryDisk :=
  ⟨.folder (("design-tokens", tokens) :: ("generated", .folder []) :: others), [], reports⟩

def workshop (files : List (String × String)) : MemoryDisk := workplace (tokensFolder files) [] []

section

variable (tokens : Node) (others : List (String × Node)) (reports : List Report)

theorem fileName_tokens : FileName "design-tokens" := by decide

theorem fileName_generated : FileName "generated" := by decide

theorem reach?_tokens :
    (workplace tokens others reports).reach? "design-tokens" = some ["design-tokens"] :=
  reach?_name fileName_tokens (by decide) rfl

theorem reach?_generated :
    (workplace tokens others reports).reach? "generated" = some ["generated"] :=
  reach?_name fileName_generated (by decide) rfl

theorem at?_tokens : (workplace tokens others reports).root.at? ["design-tokens"] = some tokens := by
  simp [workplace, Node.at?, Entries.value?]

theorem at?_generated :
    (workplace tokens others reports).root.at? ["generated"] = some (.folder []) := by
  simp [workplace, Node.at?, Entries.value?]

theorem room_workplace {names : List String} (fits : ∀ name ∈ names, Fits "generated" name) :
    Room "generated" names (workplace tokens others reports) := by
  refine ⟨["generated"], reach?_generated tokens others reports, ?_, ?_⟩
  · rw [MemoryDisk.isFolder, at?_generated]
    rfl
  · intro name member
    refine ⟨fits name member, ?_⟩
    simp [MemoryDisk.isFolder, workplace, Node.at?, Entries.value?]

theorem makeFolder_workplace : (workplace tokens others reports).makeFolder "generated" =
    some (workplace tokens others reports) := by
  have path : isPath "generated" = true := by decide
  have found : (workplace tokens others reports).place? "generated" = some ["generated"] := by
    rw [place?, if_pos path]
    exact reach?_generated tokens others reports
  rw [MemoryDisk.makeFolder, found, Option.bind_eq_bind, Option.bind_some, at?_generated]

theorem makeFolders_workplace :
    (makeFolders "generated" : StateM MemoryDisk Bool) (workplace tokens others reports) =
      (true, workplace tokens others reports) := by
  have steps : chain "generated" = ["generated"] := by decide
  have made := run_makeFolder_of_some (makeFolder_workplace tokens others reports)
  rw [makeFolders, if_neg (by decide), if_pos (by decide), steps, makeEach, bind_of_eq _ made]
  rfl

theorem read_token {entries : List (String × Node)} {name : String} {content : ByteArray}
    (file : FileName name) (fits : Fits "design-tokens" name)
    (held : Entries.value? name entries = some (.file content)) :
    (workplace (.folder entries) others reports).read (below "design-tokens" name) = some content := by
  have ready : (workplace (.folder entries) others reports).isFolder ["design-tokens"] = true := by
    rw [MemoryDisk.isFolder, at?_tokens]
    rfl
  apply read_below file fits (reach?_tokens _ others reports) ready
  simp [workplace, Node.look_folder, Entries.value?, held, Node.look_nil, Node.content?]

end

theorem value?_tokensFolder (name : String) (files : List (String × String)) :
    Entries.value? name (files.map fun file => (file.1, Node.file (tokenText file.2).toUTF8)) =
      (Entries.value? name files).map fun text => .file (tokenText text).toUTF8 :=
  Entries.value?_map (fun text => Node.file (tokenText text).toUTF8) name files

structure Stocked (files : List (String × String)) (file text : String) : Prop where
  plain : isAlias text = false
  name : FileName file
  fits : Fits "design-tokens" file
  toml : Format.ofFile? (below "design-tokens" file) = some .toml
  held : Entries.value? file files = some text

structure Nameable (name : String) : Prop where
  whole : '/' ∉ name.toList
  plain : isAlias name = false
  theme : Fits "generated" (name ++ ".theme.toml")
  reference : Fits "generated" (name ++ ".reference.json")

theorem Stocked.assembleJob (stocked : Stocked files job.file text) (named : Nameable job.name)
    (tokens : plan.tokensDir = "design-tokens") (others : List (String × Node))
    (reports : List Report) :
    ∃ theme, Assembled (sample.tree text) job.name theme ∧
      (assembleJob plan job : Task (StateM MemoryDisk) Theme).run
        (workplace (tokensFolder files) others reports) =
          (.ok theme, workplace (tokensFolder files) others reports) := by
  obtain ⟨theme, assembled, holds⟩ := assemble_sample stocked.plain named.plain
  have there : Entries.value? job.file
      (files.map fun file => (file.1, Node.file (tokenText file.2).toUTF8)) =
        some (.file (tokenText text).toUTF8) := by
    rw [value?_tokensFolder, stocked.held]
    rfl
  have read := read_token others reports stocked.name stocked.fits there
  have parsed : readTree .toml (below "design-tokens" job.file) (tokenText text) =
      .ok (sample.tree text) := by
    rw [readTree, Format.read, read_tokenText, ← sample.toDocument_tree]
    exact Tree.ofDocument_toDocument (sample.tree text)
  have loaded := run_loadTree_of_read read stocked.toml parsed
  refine ⟨theme, holds, ?_⟩
  rw [Build.assembleJob, Plan.tokenFile, tokens, tokensFolder, run_bind_of_ok _ loaded, run_succeed,
    assembled]

theorem assembles_workplace (tokens : plan.tokensDir = "design-tokens")
    (stocked : ∀ job ∈ plan.jobs, ∃ text, Stocked files job.file text)
    (named : ∀ job ∈ plan.jobs, Nameable job.name) (others : List (String × Node))
    (reports : List Report) : plan.Assembles (workplace (tokensFolder files) others reports) := by
  intro job listed
  obtain ⟨text, stocked⟩ := stocked job listed
  obtain ⟨theme, -, done⟩ := stocked.assembleJob (named job listed) tokens others reports
  exact ⟨theme, done⟩

theorem exists_build_workplace (tokens : plan.tokensDir = "design-tokens")
    (out : plan.outDir = "generated")
    (stocked : ∀ job ∈ plan.jobs, ∃ text, Stocked files job.file text)
    (named : ∀ job ∈ plan.jobs, Nameable job.name) (others : List (String × Node))
    (reports : List Report) :
    ∃ after, (build plan : Task (StateM MemoryDisk) Manifest).run
        (workplace (tokensFolder files) others reports) = (.ok plan.manifest, after) := by
  obtain ⟨themes, checked⟩ := (assembleJobs_isOk_iff plan plan.jobs _).mpr
    (assembles_workplace tokens stocked named others reports)
  have fits : ∀ name ∈ plan.manifest.written, Fits "generated" name := by
    rw [Manifest.written, List.forall_mem_append, Plan.manifest, List.flatMap_map]
    constructor
    · intro name member
      obtain ⟨job, listed, member⟩ := List.mem_flatMap.mp member
      rcases Listing.mem_files_ofJob.mp member with rfl | rfl
      · exact (named job listed).theme
      · exact (named job listed).reference
    · exact List.forall_mem_singleton.mpr (by decide)
  apply exists_build (fun job listed => (named job listed).whole) checked
  · rw [out]
    exact makeFolders_workplace _ others reports
  · rw [out]
    exact room_workplace _ others reports fits

end DesignTokens.Build
