import DesignTokens.Proofs.Build.Output

/-!
When a build goes through: every theme can be assembled, the folder for generated files can be made,
and there is room in it for every file.
-/

namespace DesignTokens.Build

open MemoryDisk Theme

variable {disk next middle : MemoryDisk} {plan : Plan} {job : Job} {theme : Theme}
  {themes : List Theme} {folder name : String} {names : List String}

/-- The folder is there, the names fit, and none of them is that of a folder in it. -/
def Room (folder : String) (names : List String) (disk : MemoryDisk) : Prop :=
  ∃ place, disk.reach? folder = some place ∧ disk.isFolder place = true ∧
    ∀ name ∈ names, Fits folder name ∧ disk.isFolder (place ++ [name]) = false

theorem Room.of_same (same : disk.SameFolders next) (room : Room folder names disk) :
    Room folder names next := by
  obtain ⟨place, reached, ready, each⟩ := room
  refine ⟨place, (same.reach? folder).trans reached, (same.folders place).trans ready, ?_⟩
  intro name member
  exact ⟨(each name member).1, (same.folders _).trans (each name member).2⟩

theorem Room.writeFile (room : Room folder names disk) (member : name ∈ names) (file : FileName name)
    (text : String) : ∃ next, disk.SameFolders next ∧
      (writeFile (below folder name) text : Task (StateM MemoryDisk) Unit).run disk = (.ok (), next) := by
  obtain ⟨place, reached, ready, each⟩ := room
  obtain ⟨fits, free⟩ := each name member
  have found : disk.place? (below folder name) = some (place ++ [name]) :=
    (place?_below_eq_some_iff file).mpr ⟨fits, place, reached, ready, rfl⟩
  obtain ⟨next, done⟩ : ∃ next,
      (Build.writeFile (below folder name) text : Task (StateM MemoryDisk) Unit).run disk =
        (.ok (), next) := by
    rw [run_writeFile, write, found]
    simp [asksFolder_below file, free]
  exact ⟨next, (wrote_of_writeFile file done).same, done⟩

theorem Room.writeTheme (room : Room plan.outDir names disk) (made : job.Made theme)
    (whole : '/' ∉ job.name.toList) (own : ∀ name ∈ (Listing.ofJob job).files, name ∈ names) :
    ∃ next, disk.SameFolders next ∧
      (writeTheme plan job theme : Task (StateM MemoryDisk) Listing).run disk =
        (.ok (Listing.ofJob job), next) := by
  obtain ⟨middle, same, first⟩ := room.writeFile (own _ (Listing.mem_files_ofJob.mpr (.inl rfl)))
    (Listing.fileName_theme whole) (sourceText theme job.file)
  obtain ⟨last, same', second⟩ := (room.of_same same).writeFile
    (own _ (Listing.mem_files_ofJob.mpr (.inr rfl))) (Listing.fileName_reference whole)
    (referenceText theme)
  refine ⟨last.report (.info ("Built theme '" ++ job.name ++ "' from " ++ job.file)),
    (same.trans same').trans (.of_contents rfl), ?_⟩
  rw [Build.writeTheme, themeSource_eq_sourceText made.2, run_bind_of_ok _ (run_succeed _),
    run_bind_of_ok _ first, run_bind_of_ok _ second]
  rfl

theorem Room.writeThemes {jobs : List Job} (room : Room plan.outDir names disk)
    (made : List.Forall₂ Job.Made jobs themes) (whole : ∀ job ∈ jobs, '/' ∉ job.name.toList)
    (own : ∀ job ∈ jobs, ∀ name ∈ (Listing.ofJob job).files, name ∈ names) :
    ∃ next, disk.SameFolders next ∧
      (writeThemes plan (jobs.zip themes) : Task (StateM MemoryDisk) (List Listing)).run disk =
        (.ok (jobs.map Listing.ofJob), next) := by
  induction made generalizing disk with
  | nil => exact ⟨disk, .refl disk, rfl⟩
  | cons first _ ih =>
      obtain ⟨whole, others⟩ := List.forall_mem_cons.mp whole
      obtain ⟨own, behind⟩ := List.forall_mem_cons.mp own
      obtain ⟨middle, same, begun⟩ := room.writeTheme first whole own
      obtain ⟨last, same', later⟩ := ih (room.of_same same) others behind
      refine ⟨last, same.trans same', ?_⟩
      rw [List.zip_cons_cons, Build.writeThemes, run_bind_of_ok _ begun, run_bind_of_ok _ later]
      rfl

theorem exists_build (whole : plan.Whole)
    (checked : (check plan : Task (StateM MemoryDisk) (List Theme)).run disk = (.ok themes, disk))
    (folders : (makeFolders plan.outDir : StateM MemoryDisk Bool) disk = (true, middle))
    (room : Room plan.outDir plan.manifest.written middle) :
    ∃ after, (build plan : Task (StateM MemoryDisk) Manifest).run disk =
      (.ok plan.manifest, after) := by
  have own : ∀ job ∈ plan.jobs, ∀ name ∈ (Listing.ofJob job).files,
      name ∈ plan.manifest.written := by
    intro job listed name member
    rw [Manifest.written, Plan.manifest, List.flatMap_map, List.mem_append, List.mem_flatMap]
    exact .inl ⟨job, listed, member⟩
  obtain ⟨last, same, themesDone⟩ := room.writeThemes (made_of_assembleJobs checked) whole own
  obtain ⟨after, -, indexDone⟩ := (room.of_same same).writeFile
    (List.mem_append_right _ (List.mem_singleton_self _)) fileName_index (manifestText plan.manifest)
  refine ⟨after, ?_⟩
  rw [build, run_bind_of_ok _ checked, run_bind_of_ok _ (run_lift_eq_ok_iff.mpr folders), if_pos rfl,
    run_bind_of_ok _ themesDone]
  have rendered := Manifest.text_eq_ok plan.manifest
  simp only [Plan.manifest] at rendered indexDone ⊢
  rw [rendered, run_bind_of_ok _ (run_succeed _), run_bind_of_ok _ indexDone]
  rfl

end DesignTokens.Build
