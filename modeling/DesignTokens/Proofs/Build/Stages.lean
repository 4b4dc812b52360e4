import DesignTokens.Proofs.Build.Rendering
import DesignTokens.Proofs.Build.Task

/-!
The stages of a run. Loading a plan and assembling its themes changes no file; once everything is
assembled only the disk can make a build fail.
-/

namespace DesignTokens.Build

open Theme Plan Token

variable {disk next : MemoryDisk} {plan : Plan} {job : Job} {theme : Theme} {themes : List Theme}

def Job.Made (job : Job) (theme : Theme) : Prop :=
  theme.name = job.name ∧ Theme.schema.Solid theme.root

theorem made_of_assembleJob
    (done : (assembleJob plan job : Task (StateM MemoryDisk) Theme).run disk = (.ok theme, next)) :
    job.Made theme := by
  obtain ⟨tree, middle, -, made⟩ := exists_of_run_bind done
  rw [run_succeed] at made
  exact solid_of_assemble (Prod.mk.inj made).1

theorem made_of_assembleJobs {jobs : List Job}
    (done : (assembleJobs plan jobs : Task (StateM MemoryDisk) (List Theme)).run disk =
      (.ok themes, next)) : List.Forall₂ Job.Made jobs themes :=
  (run_assembleJobs_eq_ok_iff.mp done).2.imp fun _ _ => made_of_assembleJob

def Unwritable (e : ThemeError) : Prop := ∃ file, e = .unwritable file

theorem failsOnly_writeFile (file text : String) :
    FailsOnly Unwritable (writeFile file text : Task (StateM MemoryDisk) Unit) := by
  rw [writeFile]
  refine FailsOnly.bind (failsOnly_lift _) ?_
  intro written
  split
  · exact failsOnly_lift _
  · exact failsOnly_throw ⟨file, rfl⟩

theorem failsOnly_writeTheme (plan : Plan) (made : job.Made theme) :
    FailsOnly Unwritable (writeTheme plan job theme : Task (StateM MemoryDisk) Listing) := by
  obtain ⟨entries, form⟩ := exists_entries made.2
  rw [writeTheme, themeSource_eq_ok made.2 form]
  refine FailsOnly.bind (failsOnly_succeed _) ?_
  intro text
  refine FailsOnly.bind (failsOnly_writeFile _ _) ?_
  intro _
  refine FailsOnly.bind (failsOnly_writeFile _ _) ?_
  intro _
  refine FailsOnly.bind (failsOnly_lift _) ?_
  intro _
  exact failsOnly_pure _

theorem failsOnly_writeThemes {jobs : List Job} (plan : Plan)
    (made : List.Forall₂ Job.Made jobs themes) :
    FailsOnly Unwritable
      (writeThemes plan (jobs.zip themes) : Task (StateM MemoryDisk) (List Listing)) := by
  induction made with
  | nil => exact failsOnly_pure _
  | cons first _ ih =>
      rw [List.zip_cons_cons, writeThemes]
      refine FailsOnly.bind (failsOnly_writeTheme plan first) ?_
      intro listing
      refine FailsOnly.bind ih ?_
      intro listings
      exact failsOnly_pure _

/-- Once every theme is assembled, only the disk can keep them from being built. -/
theorem unwritable_of_build {e : ThemeError} {middle : MemoryDisk}
    (checked : (check plan : Task (StateM MemoryDisk) _).run disk = (.ok themes, middle))
    (failed : (build plan : Task (StateM MemoryDisk) Manifest).run disk = (.error e, next)) :
    Unwritable e := by
  rw [build, run_bind_of_ok _ checked] at failed
  refine (?_ : FailsOnly Unwritable _) _ _ _ failed
  refine FailsOnly.bind (failsOnly_lift _) ?_
  intro ready
  split
  · refine FailsOnly.bind (failsOnly_writeThemes plan (made_of_assembleJobs checked)) ?_
    intro listings
    simp only [Manifest.text_eq_ok]
    refine FailsOnly.bind (failsOnly_succeed _) ?_
    intro text
    refine FailsOnly.bind (failsOnly_writeFile _ _) ?_
    intro _
    exact failsOnly_pure _
  · exact failsOnly_throw ⟨_, rfl⟩

theorem keeps_load (file : String) :
    Keeps MemoryDisk.contents (Plan.load file : Task (StateM MemoryDisk) Plan).run := by
  rw [Plan.load]
  split
  · apply (keeps_loadText _ file _).run_bind
    intro text
    apply Keeps.run_bind (keeps_lift (keeps_report _))
    intro _
    exact keeps_succeed _
  · exact keeps_throw _

theorem keeps_ofEnvironment (environment : Environment) :
    Keeps MemoryDisk.contents (Plan.ofEnvironment environment : StateM MemoryDisk Plan) := by
  rw [Plan.ofEnvironment]
  refine Keeps.bind ?_ fun plan => keeps_pure _
  rw [Plan.ofPlanFile.eq_def]
  split
  · exact keeps_pure _
  · refine Keeps.bind (keeps_load _) fun loaded => ?_
    split
    · exact keeps_pure _
    · exact Keeps.bind (keeps_report _) fun _ => keeps_pure _

theorem keeps_loadPlan (request : Request) (environment : Environment) :
    Keeps MemoryDisk.contents
      (request.loadPlan environment : StateM MemoryDisk (Except (Stage × ThemeError) Plan)) := by
  rw [Request.loadPlan]
  split
  · refine Keeps.bind (keeps_load _) fun loaded => ?_
    split <;> exact keeps_pure _
  · exact Keeps.bind (keeps_ofEnvironment environment) fun plan => keeps_pure _

theorem keeps_reportChecked (themes : List Theme) :
    Keeps MemoryDisk.contents (reportChecked themes : StateM MemoryDisk Unit) := by
  induction themes with
  | nil => exact keeps_pure _
  | cons theme rest ih => exact Keeps.bind (keeps_report _) fun _ => ih

def Plan.Assembles (plan : Plan) (disk : MemoryDisk) : Prop :=
  ∀ job ∈ plan.jobs, ∃ theme,
    (assembleJob plan job : Task (StateM MemoryDisk) Theme).run disk = (.ok theme, disk)

theorem assembleJobs_isOk_iff (plan : Plan) (jobs : List Job) (disk : MemoryDisk) :
    (∃ themes, (assembleJobs plan jobs : Task (StateM MemoryDisk) (List Theme)).run disk =
      (.ok themes, disk)) ↔
    ∀ job ∈ jobs, ∃ theme,
      (assembleJob plan job : Task (StateM MemoryDisk) Theme).run disk = (.ok theme, disk) := by
  simp only [run_assembleJobs_eq_ok_iff, true_and]
  induction jobs with
  | nil => exact ⟨fun _ => List.forall_mem_nil _, fun _ => ⟨[], .nil⟩⟩
  | cons job rest ih =>
      rw [List.forall_mem_cons, ← ih]
      constructor
      · rintro ⟨themes, each⟩
        obtain ⟨theme, others, first, later, rfl⟩ := List.forall₂_cons_left_iff.mp each
        exact ⟨⟨theme, first⟩, others, later⟩
      · rintro ⟨⟨theme, first⟩, themes, later⟩
        exact ⟨theme :: themes, .cons first later⟩

/-- The themes of a plan are assembled, or there is a first failure. The disk stays as it is. -/
theorem check_cases (plan : Plan) (disk : MemoryDisk) :
    (plan.Assembles disk ∧
      ∃ themes, (check plan : Task (StateM MemoryDisk) _).run disk = (.ok themes, disk)) ∨
    (¬ plan.Assembles disk ∧
      ∃ e, (check plan : Task (StateM MemoryDisk) _).run disk = (.error e, disk)) := by
  rw [Plan.Assembles, ← assembleJobs_isOk_iff]
  rcases done : (check plan : Task (StateM MemoryDisk) _).run disk with ⟨e | themes, next⟩
  · obtain rfl : next = disk := (keeps_check id plan).eq done
    refine .inr ⟨?_, e, rfl⟩
    intro other
    obtain ⟨themes, other⟩ := other
    rw [check, other] at done
    cases done
  · obtain rfl : next = disk := (keeps_check id plan).eq done
    exact .inl ⟨⟨themes, done⟩, themes, rfl⟩

end DesignTokens.Build
