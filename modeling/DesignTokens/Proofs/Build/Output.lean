import DesignTokens.Proofs.Build.Stages
import DesignTokens.Proofs.Build.Disk
import DesignTokens.Build.Run
import Mathlib.Data.List.Nodup
import Mathlib.Data.List.Zip

/-!
What a build writes: two files for each theme in the order of the jobs, and then the manifest. Files
of one name are written over each other, so the last job of a name is the one whose theme is there.
-/

namespace DesignTokens.Build

open MemoryDisk Theme

variable {disk next middle after : MemoryDisk} {plan : Plan} {job : Job} {theme : Theme}
  {themes : List Theme} {folder name text : String} {listing : Listing} {listings : List Listing} {place : List String}

def themeFiles (job : Job) (theme : Theme) : List (String × String) :=
  [((Listing.ofJob job).theme, sourceText theme job.file),
    ((Listing.ofJob job).reference, referenceText theme)]

def themesFiles (built : List (Job × Theme)) : List (String × String) :=
  built.flatMap fun pair => themeFiles pair.1 pair.2

def Plan.manifest (plan : Plan) : Manifest := ⟨plan.jobs.map Listing.ofJob⟩

def Plan.files (plan : Plan) (themes : List Theme) : List (String × String) :=
  themesFiles (plan.jobs.zip themes) ++ [(Manifest.fileName, manifestText plan.manifest)]

def Plan.Whole (plan : Plan) : Prop := ∀ job ∈ plan.jobs, '/' ∉ job.name.toList

theorem run_writeFile (file text : String) (disk : MemoryDisk) :
    (writeFile file text : Task (StateM MemoryDisk) Unit).run disk =
      match disk.write file text.toUTF8 with
      | some next => (.ok (), next.report (.info ("Wrote " ++ Text.quote file)))
      | none => (.error (.unwritable file), disk) := by
  have steps : (writeFile file text : Task (StateM MemoryDisk) Unit).run disk =
      (bind (MemoryDisk.settle fun disk => disk.write file text.toUTF8) fun written =>
        (if written then liftM (Disk.report (.info ("Wrote " ++ Text.quote file)))
          else throw (.unwritable file) : Task (StateM MemoryDisk) Unit).run) disk := rfl
  rw [steps]
  simp only [bind, StateT.bind, MemoryDisk.settle]
  cases disk.write file text.toUTF8 <;> rfl

theorem wrote_of_writeFile (file : FileName name)
    (done : (writeFile (below folder name) text : Task (StateM MemoryDisk) Unit).run disk =
      (.ok (), next)) : Wrote folder [(name, text)] disk next := by
  rw [run_writeFile] at done
  cases written : disk.write (below folder name) text.toUTF8 with
  | none =>
      rw [written] at done
      cases done
  | some other =>
      rw [written] at done
      cases done
      exact (Wrote.file file written).append (Wrote.nil rfl)

theorem wrote_of_writeTheme (whole : '/' ∉ job.name.toList) (made : job.Made theme)
    (done : (writeTheme plan job theme : Task (StateM MemoryDisk) Listing).run disk =
      (.ok listing, next)) :
    listing = Listing.ofJob job ∧ Wrote plan.outDir (themeFiles job theme) disk next := by
  rw [writeTheme, themeSource_eq_sourceText made.2] at done
  obtain ⟨source, _, first, done⟩ := exists_of_run_bind done
  cases first
  obtain ⟨_, middle, first, done⟩ := exists_of_run_bind done
  obtain ⟨_, last, second, done⟩ := exists_of_run_bind done
  cases done
  have wrote := (wrote_of_writeFile (Listing.fileName_theme whole) first).append
    (wrote_of_writeFile (Listing.fileName_reference whole) second)
  exact ⟨rfl, wrote.append (Wrote.nil rfl)⟩

theorem wrote_of_writeThemes {jobs : List Job} (whole : ∀ job ∈ jobs, '/' ∉ job.name.toList)
    (made : List.Forall₂ Job.Made jobs themes)
    (done : (writeThemes plan (jobs.zip themes) : Task (StateM MemoryDisk) (List Listing)).run disk =
      (.ok listings, next)) :
    listings = jobs.map Listing.ofJob ∧
      Wrote plan.outDir (themesFiles (jobs.zip themes)) disk next := by
  induction made generalizing disk listings with
  | nil =>
      cases done
      exact ⟨rfl, .nil rfl⟩
  | @cons job theme jobs themes first _ ih =>
      obtain ⟨whole, others⟩ := List.forall_mem_cons.mp whole
      rw [List.zip_cons_cons, writeThemes] at done
      obtain ⟨listing, middle, begun, done⟩ := exists_of_run_bind done
      obtain ⟨listings, last, later, done⟩ := exists_of_run_bind done
      cases done
      obtain ⟨rfl, wrote⟩ := wrote_of_writeTheme whole first begun
      obtain ⟨rfl, behind⟩ := ih others later
      exact ⟨rfl, wrote.append behind⟩

/-- What a build has done once it has succeeded: what it started from, and what is there now. -/
structure Built (plan : Plan) (themes : List Theme) (disk : MemoryDisk) (place : List String)
    (after : MemoryDisk) : Prop where
  checked : (check plan : Task (StateM MemoryDisk) (List Theme)).run disk = (.ok themes, disk)
  reached : after.reach? plan.outDir = some place
  ready : after.isFolder place = true
  fits : ∀ file ∈ plan.files themes, Fits plan.outDir file.1
  /-- Of several files of one name the last one is there. -/
  held : ∀ name text, Entries.value? name (plan.files themes).reverse = some text →
    after.root.look (place ++ [name]) = some (some text.toUTF8)
  kept : ∀ other held, disk.root.look other = some held →
    (∀ file ∈ plan.files themes, other ≠ place ++ [file.1]) → after.root.look other = some held

theorem built_of_build {manifest : Manifest} (whole : plan.Whole)
    (done : (build plan : Task (StateM MemoryDisk) Manifest).run disk = (.ok manifest, after)) :
    manifest = plan.manifest ∧ ∃ themes place, Built plan themes disk place after := by
  rw [build] at done
  obtain ⟨themes, start, checked, done⟩ := exists_of_run_bind done
  have same : start = disk := (keeps_check id plan).eq checked
  rw [same] at checked done
  obtain ⟨ready, middle, folders, done⟩ := exists_of_run_bind done
  have grows : disk.Grows middle := grows_makeFolders (run_lift_eq_ok_iff.mp folders)
  cases ready with
  | false => cases done
  | true =>
      obtain ⟨listings, last, themesDone, done⟩ := exists_of_run_bind done
      obtain ⟨listed, wrote⟩ := wrote_of_writeThemes whole (made_of_assembleJobs checked) themesDone
      simp only [listed, Manifest.text_eq_ok] at done
      obtain ⟨text, _, rendered, done⟩ := exists_of_run_bind done
      cases rendered
      obtain ⟨_, _, indexDone, done⟩ := exists_of_run_bind done
      cases done
      have all := wrote.append (wrote_of_writeFile fileName_index indexDone)
      obtain ⟨-, place, reached, folder⟩ :=
        all.ready _ (List.mem_append_right _ (List.mem_singleton_self _))
      refine ⟨rfl, themes, place, checked, (all.same.reach? _).trans reached,
        (all.same.folders place).trans folder, fun file listed => (all.ready file listed).1,
        all.held place reached, fun other held there apart => ?_⟩
      rw [all.frame other, grows.kept other held there]
      intro above reached'
      rw [reached, Option.some.injEq] at reached'
      exact reached' ▸ apart

theorem value?_themesFiles_theme (job : Job) (built : List (Job × Theme)) :
    Entries.value? (Listing.ofJob job).theme (themesFiles built).reverse =
      (built.reverse.find? fun pair => pair.1.name = job.name).map fun pair =>
        sourceText pair.2 pair.1.file := by
  apply Entries.value?_flatMap_reverse
  intro pair
  have other := (Listing.theme_ne_reference job pair.1).symm
  simp [themeFiles, Entries.value?, other, Listing.theme_eq_iff]

theorem value?_themesFiles_reference (job : Job) (built : List (Job × Theme)) :
    Entries.value? (Listing.ofJob job).reference (themesFiles built).reverse =
      (built.reverse.find? fun pair => pair.1.name = job.name).map fun pair =>
        referenceText pair.2 := by
  apply Entries.value?_flatMap_reverse
  intro pair
  have other := Listing.theme_ne_reference pair.1 job
  simp [themeFiles, Entries.value?, other, Listing.reference_eq_iff]

def Plan.lastJob? (plan : Plan) (name : String) : Option Job :=
  plan.jobs.reverse.find? fun job => job.name = name

theorem Plan.lastJob?_eq_some {last : Job} (found : plan.lastJob? name = some last) :
    last ∈ plan.jobs ∧ last.name = name :=
  ⟨List.mem_reverse.mp (List.mem_of_find?_eq_some found), by simpa using List.find?_some found⟩

theorem Plan.exists_lastJob (listed : job ∈ plan.jobs) : ∃ last, plan.lastJob? job.name = some last := by
  rw [← Option.isSome_iff_exists, Plan.lastJob?, List.find?_isSome]
  exact ⟨job, List.mem_reverse.mpr listed, by simp⟩

theorem Plan.lastJob?_of_nodup (distinct : (plan.jobs.map Job.name).Nodup) (listed : job ∈ plan.jobs) :
    plan.lastJob? job.name = some job := by
  obtain ⟨last, found⟩ := Plan.exists_lastJob listed
  obtain ⟨member, same⟩ := Plan.lastJob?_eq_some found
  rw [found, List.inj_on_of_nodup_map distinct member listed same]

namespace Built

variable (built : Built plan themes disk place after)

include built

theorem each : List.Forall₂ (fun job theme =>
    (assembleJob plan job : Task (StateM MemoryDisk) Theme).run disk = (.ok theme, disk))
    plan.jobs themes :=
  (run_assembleJobs_eq_ok_iff.mp built.checked).2

theorem made : List.Forall₂ Job.Made plan.jobs themes := made_of_assembleJobs built.checked

theorem find_last {last : Job} (found : plan.lastJob? name = some last) :
    ∃ theme, (last, theme) ∈ plan.jobs.zip themes ∧
      ((plan.jobs.zip themes).reverse.find? fun pair => pair.1.name = name) = some (last, theme) := by
  have jobs : (plan.jobs.zip themes).reverse.map Prod.fst = plan.jobs.reverse := by
    rw [List.map_reverse, List.map_fst_zip built.made.length_eq.le]
  rw [Plan.lastJob?, ← jobs, List.find?_map, Option.map_eq_some_iff] at found
  obtain ⟨⟨_, theme⟩, found, rfl⟩ := found
  exact ⟨theme, List.mem_reverse.mp (List.mem_of_find?_eq_some found), found⟩

theorem read_of_value? (file : FileName name)
    (there : Entries.value? name (plan.files themes).reverse = some text) :
    after.read (below plan.outDir name) = some text.toUTF8 :=
  have listed := List.mem_reverse.mp (Entries.mem_of_value? there)
  read_below file (built.fits _ listed) built.reached built.ready (built.held name text there)

theorem read_theme {last : Job} (whole : '/' ∉ job.name.toList)
    (found : ((plan.jobs.zip themes).reverse.find? fun pair => pair.1.name = job.name) =
      some (last, theme)) :
    after.read (below plan.outDir (Listing.ofJob job).theme) =
      some (sourceText theme last.file).toUTF8 := by
  apply built.read_of_value? (Listing.fileName_theme whole)
  have other := (Listing.theme_ne_index job).symm
  simp [Plan.files, Entries.value?, other, value?_themesFiles_theme, found]

theorem read_reference {last : Job} (whole : '/' ∉ job.name.toList)
    (found : ((plan.jobs.zip themes).reverse.find? fun pair => pair.1.name = job.name) =
      some (last, theme)) :
    after.read (below plan.outDir (Listing.ofJob job).reference) = some (referenceText theme).toUTF8 := by
  apply built.read_of_value? (Listing.fileName_reference whole)
  have other := (Listing.reference_ne_index job).symm
  simp [Plan.files, Entries.value?, other, value?_themesFiles_reference, found]

theorem read_index :
    after.read (below plan.outDir Manifest.fileName) = some (manifestText plan.manifest).toUTF8 := by
  apply built.read_of_value? fileName_index
  simp [Plan.files, Entries.value?]

end Built

def Listing.files (listing : Listing) : List String := [listing.theme, listing.reference]

def Manifest.written (manifest : Manifest) : List String :=
  manifest.listings.flatMap Listing.files ++ [fileName]

theorem Manifest.length_written (manifest : Manifest) :
    manifest.written.length = 2 * manifest.listings.length + 1 := by
  rw [written, List.length_append, List.length_flatMap]
  simp [Listing.files, Nat.mul_comm]

theorem Listing.mem_files_ofJob : name ∈ (Listing.ofJob job).files ↔
    name = (Listing.ofJob job).theme ∨ name = (Listing.ofJob job).reference := List.mem_pair

theorem Listing.disjoint_files_iff (job other : Job) :
    List.Disjoint (Listing.ofJob job).files (Listing.ofJob other).files ↔ job.name ≠ other.name := by
  have first := Listing.theme_ne_reference job other
  have second := (Listing.theme_ne_reference other job).symm
  simp [Listing.files, List.Disjoint, Listing.theme_eq_iff, Listing.reference_eq_iff, first, second]

theorem Plan.fileName_of_mem_written (whole : plan.Whole) (member : name ∈ plan.manifest.written) :
    FileName name := by
  rw [Manifest.written, Plan.manifest, List.flatMap_map, List.mem_append, List.mem_flatMap,
    List.mem_singleton] at member
  rcases member with ⟨job, listed, member⟩ | rfl
  · rcases Listing.mem_files_ofJob.mp member with rfl | rfl
    · exact Listing.fileName_theme (whole job listed)
    · exact Listing.fileName_reference (whole job listed)
  · exact fileName_index

/-- Two jobs write a file of the same name only if they are for the same theme. -/
theorem Plan.nodup_written_iff (plan : Plan) :
    plan.manifest.written.Nodup ↔ (plan.jobs.map Job.name).Nodup := by
  have own : ∀ job ∈ plan.jobs, (Listing.ofJob job).files.Nodup := by
    intro job _
    simp [Listing.files, Listing.theme_ne_reference]
  have split : (plan.jobs.flatMap fun job => (Listing.ofJob job).files).Nodup ↔
      (plan.jobs.map Job.name).Nodup := by
    rw [List.nodup_flatMap, and_iff_right own, List.Nodup, List.pairwise_map]
    exact List.Pairwise.iff Listing.disjoint_files_iff
  have index : ∀ name ∈ plan.jobs.flatMap fun job => (Listing.ofJob job).files,
      ∀ other ∈ [Manifest.fileName], name ≠ other := by
    intro name member other here
    rw [List.mem_singleton.mp here]
    obtain ⟨job, -, member⟩ := List.mem_flatMap.mp member
    rcases Listing.mem_files_ofJob.mp member with rfl | rfl
    · exact Listing.theme_ne_index job
    · exact Listing.reference_ne_index job
  rw [Manifest.written, Plan.manifest, List.flatMap_map, List.nodup_append, split]
  exact ⟨And.left, fun distinct => ⟨distinct, List.nodup_singleton _, index⟩⟩

theorem Plan.names_files (lengths : plan.jobs.length = themes.length) :
    (plan.files themes).map Prod.fst = plan.manifest.written := by
  have names : (themesFiles (plan.jobs.zip themes)).map Prod.fst =
      plan.jobs.flatMap fun job => (Listing.ofJob job).files :=
    calc
      _ = (plan.jobs.zip themes).flatMap fun pair => (Listing.ofJob pair.1).files :=
        List.map_flatMap
      _ = ((plan.jobs.zip themes).map Prod.fst).flatMap fun job => (Listing.ofJob job).files := by
        rw [List.flatMap_map]
      _ = _ := by rw [List.map_fst_zip lengths.le]
  rw [Plan.files, List.map_append, names, Manifest.written, Plan.manifest, List.flatMap_map]
  rfl

theorem Built.mem_written (built : Built plan themes disk place after) :
    name ∈ plan.manifest.written ↔ ∃ file ∈ plan.files themes, file.1 = name := by
  rw [← Plan.names_files built.made.length_eq, List.mem_map]

theorem Built.place?_eq (built : Built plan themes disk place after) (whole : plan.Whole)
    (member : name ∈ plan.manifest.written) :
    after.place? (below plan.outDir name) = some (place ++ [name]) := by
  obtain ⟨file, listed, same⟩ := built.mem_written.mp member
  have fits : Fits plan.outDir name := same ▸ built.fits file listed
  apply (place?_below_eq_some_iff (Plan.fileName_of_mem_written whole member)).mpr
  exact ⟨fits, place, built.reached, built.ready, rfl⟩

end DesignTokens.Build
