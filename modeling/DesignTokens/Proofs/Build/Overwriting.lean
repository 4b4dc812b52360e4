import DesignTokens.Proofs.Build.Workshop

/-!
Files that a build writes over each other. A plan that is read from a text may name a theme twice,
while one that is put together job by job never does.
-/

namespace DesignTokens.Build

open MemoryDisk Theme Token

/--
A build that succeeds writes two files for each job and the manifest, all of them right in the folder
for generated files, and leaves all else on the disk as it was. No two of the files are one exactly if
no two jobs are for one theme. Of several jobs for a theme it is the last one whose theme is in the
files, and so each job finds its own theme there if the names are distinct.
-/
theorem build_spec (plan : Plan) (whole : ∀ job ∈ plan.jobs, '/' ∉ job.name.toList)
    (disk after : MemoryDisk) (manifest : Manifest)
    (done : (build plan : Task (StateM MemoryDisk) Manifest).run disk = (.ok manifest, after)) :
    manifest.listings = plan.jobs.map Listing.ofJob ∧
    manifest.written.length = 2 * plan.jobs.length + 1 ∧
    (manifest.written.Nodup ↔ (plan.jobs.map Job.name).Nodup) ∧
    (∃ place, after.reach? plan.outDir = some place ∧ after.isFolder place = true ∧
      (∀ name ∈ manifest.written,
        after.place? (below plan.outDir name) = some (place ++ [name])) ∧
      ∀ other held, disk.root.look other = some held →
        (∀ name ∈ manifest.written, other ≠ place ++ [name]) →
        after.root.look other = some held) ∧
    ∀ job ∈ plan.jobs, ∃ last theme source, plan.lastJob? job.name = some last ∧
      ((plan.jobs.map Job.name).Nodup → last = job) ∧
      (assembleJob plan last : Task (StateM MemoryDisk) Theme).run disk = (.ok theme, disk) ∧
      themeSource theme last.file = .ok source ∧
      after.read (below plan.outDir (Listing.ofJob job).theme) = some source.toUTF8 ∧
      after.read (below plan.outDir (Listing.ofJob job).reference) =
        some (referenceText theme).toUTF8 := by
  obtain ⟨rfl, themes, place, built⟩ := built_of_build whole done
  refine ⟨rfl, ?_, plan.nodup_written_iff, ⟨place, built.reached, built.ready, ?_, ?_⟩, ?_⟩
  · rw [Manifest.length_written, Plan.manifest, List.length_map]
  · exact fun name member => built.place?_eq whole member
  · intro other held there apart
    apply built.kept other held there
    intro file listed
    exact apart file.1 (built.mem_written.mpr ⟨file, listed, rfl⟩)
  · intro job listed
    obtain ⟨last, found⟩ := Plan.exists_lastJob listed
    obtain ⟨theme, pair, found'⟩ := built.find_last found
    have assembled := (List.forall₂_iff_zip.mp built.each).2 pair
    have made := (List.forall₂_iff_zip.mp built.made).2 pair
    refine ⟨last, theme, _, found, ?_, assembled, themeSource_eq_sourceText made.2 _, ?_, ?_⟩
    · intro distinct
      rw [Plan.lastJob?_of_nodup distinct listed, Option.some.injEq] at found
      exact found.symm
    · exact built.read_theme (whole job listed) found'
    · exact built.read_reference (whole job listed) found'

def skies : List (String × String) := [("Day.toml", "sun"), ("Night.toml", "moon")]

theorem stocked_day : Stocked skies "Day.toml" "sun" :=
  ⟨by decide, by decide, by decide, by decide, by decide⟩

theorem stocked_night : Stocked skies "Night.toml" "moon" :=
  ⟨by decide, by decide, by decide, by decide, by decide⟩

theorem nameable_day : Nameable "day" := ⟨by decide, by decide, by decide, by decide⟩

theorem nameable_night : Nameable "night" := ⟨by decide, by decide, by decide, by decide⟩

def skyPlan (night : String) : Plan :=
  ⟨"design-tokens", "generated", [⟨"Day.toml", "day"⟩, ⟨"Night.toml", night⟩]⟩

theorem stocked_sky (night : String) :
    ∀ job ∈ (skyPlan night).jobs, ∃ text, Stocked skies job.file text :=
  List.forall_mem_cons.mpr ⟨⟨_, stocked_day⟩, List.forall_mem_singleton.mpr ⟨_, stocked_night⟩⟩

theorem nameable_sky {night : String} (named : Nameable night) :
    ∀ job ∈ (skyPlan night).jobs, Nameable job.name :=
  List.forall_mem_cons.mpr ⟨nameable_day, List.forall_mem_singleton.mpr named⟩

theorem exists_build_sky {night : String} (named : Nameable night) : ∃ after,
    (build (skyPlan night) : Task (StateM MemoryDisk) Manifest).run (workshop skies) =
      (.ok (skyPlan night).manifest, after) :=
  exists_build_workplace rfl rfl (stocked_sky night) (nameable_sky named) [] []

/-- Two names make five files, and each theme finds its own. -/
theorem build_of_day_and_night : ∃ after,
    (∀ job ∈ (skyPlan "night").jobs, '/' ∉ job.name.toList) ∧
    (build (skyPlan "night") : Task (StateM MemoryDisk) Manifest).run (workshop skies) =
      (.ok (skyPlan "night").manifest, after) ∧
    (skyPlan "night").manifest.written.Nodup ∧
    ∀ job ∈ (skyPlan "night").jobs, ∃ theme source,
      (assembleJob (skyPlan "night") job : Task (StateM MemoryDisk) Theme).run (workshop skies) =
        (.ok theme, workshop skies) ∧
      themeSource theme job.file = .ok source ∧
      after.read (below "generated" (Listing.ofJob job).theme) = some source.toUTF8 := by
  obtain ⟨after, done⟩ := exists_build_sky nameable_night
  have whole : ∀ job ∈ (skyPlan "night").jobs, '/' ∉ job.name.toList := by decide
  have distinct : ((skyPlan "night").jobs.map Job.name).Nodup := by decide
  obtain ⟨-, -, apart, -, each⟩ := build_spec (skyPlan "night") whole _ _ _ done
  refine ⟨after, whole, done, apart.mpr distinct, fun job listed => ?_⟩
  obtain ⟨last, theme, source, -, same, assembled, text, held, -⟩ := each job listed
  cases same distinct
  exact ⟨theme, source, assembled, text, held⟩

theorem file_eq_of_sourceText {theme other : Theme} {file file' : String}
    (plain : ∀ c ∈ file.toList, Toml.isPlain c = true)
    (plain' : ∀ c ∈ file'.toList, Toml.isPlain c = true)
    (same : sourceText theme file = sourceText other file') : file = file' := by
  have chars := congrArg String.toList same
  simp only [sourceText, String.toList_append, List.append_assoc, List.append_cancel_left_eq] at chars
  have lines := congrArg (List.takeWhile Toml.isPlain) chars
  have stops : Toml.isPlain '\n' = false := by decide
  have ends : "\n\n".toList = ['\n', '\n'] := rfl
  rw [ends, List.cons_append, List.takeWhile_append_of_pos plain, List.takeWhile_append_of_pos plain']
    at lines
  exact String.toList_inj.mp (by simpa [stops] using lines)

def twinText : String :=
  "[[theme]]\nfile = \"Day.toml\"\nname = \"day\"\n\n[[theme]]\nfile = \"Night.toml\"\nname = \"day\"\n"

theorem Plan.read_of_parts {plan : Plan} {text : String}
    (parts : ((Toml.read text).bind Plan.ofDocument?).map
      (fun plan => (plan.tokensDir, plan.outDir, plan.jobs)) =
        some (plan.tokensDir, plan.outDir, plan.jobs)) (file : String) :
    Plan.read file text = .ok plan := by
  obtain ⟨read, known, same⟩ := Option.map_eq_some_iff.mp parts
  obtain ⟨tokensDir, outDir, jobs⟩ := read
  cases same
  rw [Plan.read, known]

theorem read_twinText : Plan.read "build.toml" twinText = .ok (skyPlan "day") :=
  Plan.read_of_parts (by decide +kernel) _

def surface : Field := .text "semantic.color.surface" "Semantic.Colour.Surface"

theorem surface_mem : surface ∈ fields :=
  List.mem_append_left _ (List.mem_append_left _ (List.mem_append_left _ List.mem_cons_self))

theorem assembleJob_of_stocked (plan : Plan) (job : Job) {text : String}
    (stocked : Stocked skies job.file text) (named : Nameable job.name)
    (tokens : plan.tokensDir = "design-tokens") :
    ∃ theme, (assembleJob plan job : Task (StateM MemoryDisk) Theme).run (workshop skies) =
        (.ok theme, workshop skies) ∧
      theme.part? surface.name = some (.text text) ∧
      themeSource theme job.file = .ok (sourceText theme job.file) := by
  obtain ⟨theme, holds, done⟩ := stocked.assembleJob named tokens [] []
  exact ⟨theme, done, part?_of_sample stocked.plain holds surface_mem rfl,
    themeSource_eq_sourceText (made_of_assembleJob done).2 _⟩

/-- The source that is listed for the day is that of the night, which went by the same name. -/
theorem build_of_one_name : Plan.read "build.toml" twinText = .ok (skyPlan "day") ∧
    ∃ after day night own source,
      (build (skyPlan "day") : Task (StateM MemoryDisk) Manifest).run (workshop skies) =
        (.ok (skyPlan "day").manifest, after) ∧
      ¬ (skyPlan "day").manifest.written.Nodup ∧
      (assembleJob (skyPlan "day") ⟨"Day.toml", "day"⟩ : Task (StateM MemoryDisk) Theme).run
        (workshop skies) = (.ok day, workshop skies) ∧
      day.part? surface.name = some (.text "sun") ∧
      themeSource day "Day.toml" = .ok own ∧
      (assembleJob (skyPlan "day") ⟨"Night.toml", "day"⟩ : Task (StateM MemoryDisk) Theme).run
        (workshop skies) = (.ok night, workshop skies) ∧
      night.part? surface.name = some (.text "moon") ∧
      themeSource night "Night.toml" = .ok source ∧
      own ≠ source ∧
      after.read (below "generated" "day.theme.toml") = some source.toUTF8 := by
  obtain ⟨day, dayDone, sun, own⟩ :=
    assembleJob_of_stocked (skyPlan "day") ⟨"Day.toml", "day"⟩ stocked_day nameable_day rfl
  obtain ⟨night, nightDone, moon, source⟩ :=
    assembleJob_of_stocked (skyPlan "day") ⟨"Night.toml", "day"⟩ stocked_night nameable_day rfl
  obtain ⟨after, done⟩ := exists_build_sky nameable_day
  have whole : (skyPlan "day").Whole := by
    rw [Plan.Whole]
    decide
  obtain ⟨-, themes, place, built⟩ := built_of_build whole done
  have last : (skyPlan "day").lastJob? "day" = some ⟨"Night.toml", "day"⟩ := by decide
  obtain ⟨theme, pair, found⟩ := built.find_last last
  have same : theme = night := by
    have assembled := (List.forall₂_iff_zip.mp built.each).2 pair
    rw [nightDone] at assembled
    exact (Except.ok.inj (Prod.mk.inj assembled).1).symm
  rw [same] at found
  refine ⟨read_twinText, after, day, night, _, _, done, ?_, dayDone, sun, own, nightDone, moon, source,
    ?_, ?_⟩
  · rw [Plan.nodup_written_iff]
    decide
  · intro equal
    have files := file_eq_of_sourceText (List.all_eq_true.mp (by decide))
      (List.all_eq_true.mp (by decide)) equal
    exact absurd files (by decide)
  · have listed := whole ⟨"Day.toml", "day"⟩ List.mem_cons_self
    exact built.read_theme listed found

end DesignTokens.Build
