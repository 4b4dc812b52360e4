import DesignTokens.Build.CommandLine
import DesignTokens.Build.MemoryDisk
import Mathlib.Data.List.Forall2

/-! Work on a disk in memory, step by step, and what it leaves as it was. -/

namespace DesignTokens.Build

open Theme Token

section

variable {σ α β κ : Type} {disk middle next : σ} {kept : σ → κ}

theorem bind_of_eq {first : StateM σ α} {value : α} (second : α → StateM σ β)
    (begun : first disk = (value, middle)) : (first >>= second) disk = second value middle := by
  simp only [bind, StateT.bind, begun]

theorem run_succeed (result : Except ThemeError α) :
    (succeed result : Task (StateM σ) α).run disk = (result, disk) := by
  cases result <;> rfl

theorem run_bind_of_ok {first : Task (StateM σ) α} {value : α} (second : α → Task (StateM σ) β)
    (begun : first.run disk = (.ok value, middle)) :
    (first >>= second).run disk = (second value).run middle := by
  rw [ExceptT.run_bind]
  simp only [bind, StateT.bind, begun]

theorem run_bind_of_error {first : Task (StateM σ) α} {e : ThemeError}
    (second : α → Task (StateM σ) β) (begun : first.run disk = (.error e, middle)) :
    (first >>= second).run disk = (.error e, middle) := by
  rw [ExceptT.run_bind]
  simp only [bind, StateT.bind, begun]
  rfl

theorem run_lift_eq_ok_iff {work : StateM σ α} {value : α} :
    (liftM work : Task (StateM σ) α).run disk = (.ok value, next) ↔ work disk = (value, next) := by
  have steps : (liftM work : Task (StateM σ) α).run disk = (.ok (work disk).1, (work disk).2) := rfl
  constructor
  · intro done
    cases done
    rfl
  · intro done
    rw [steps, done]

theorem exists_of_run_bind {first : Task (StateM σ) α} {second : α → Task (StateM σ) β} {value : β}
    (done : (first >>= second).run disk = (.ok value, next)) :
    ∃ between middle, first.run disk = (.ok between, middle) ∧
      (second between).run middle = (.ok value, next) := by
  rcases begun : first.run disk with ⟨_ | between, middle⟩
  · rw [run_bind_of_error second begun] at done
    cases done
  · rw [run_bind_of_ok second begun] at done
    exact ⟨between, middle, rfl, done⟩

/-- Whatever comes of the work, a part of the disk is in the end what it was at first. -/
def Keeps (kept : σ → κ) (work : StateM σ α) : Prop := ∀ disk, kept (work disk).2 = kept disk

theorem Keeps.eq {work : StateM σ α} {result : α} (keeps : Keeps kept work)
    (done : work disk = (result, next)) : kept next = kept disk := by
  rw [← keeps disk, done]

theorem keeps_pure (value : α) : Keeps kept (pure value) := fun _ => rfl

theorem Keeps.bind {first : StateM σ α} {second : α → StateM σ β} (begun : Keeps kept first)
    (later : ∀ value, Keeps kept (second value)) : Keeps kept (first >>= second) := by
  intro disk
  exact (later (first disk).1 (first disk).2).trans (begun disk)

theorem keeps_throw (e : ThemeError) : Keeps kept (throw e : Task (StateM σ) α).run := fun _ => rfl

theorem keeps_lift {work : StateM σ α} (keeps : Keeps kept work) :
    Keeps kept (liftM work : Task (StateM σ) α).run := keeps

theorem keeps_succeed (result : Except ThemeError α) :
    Keeps kept (succeed result : Task (StateM σ) α).run := by
  intro disk
  rw [run_succeed]

theorem Keeps.run_bind {first : Task (StateM σ) α} {second : α → Task (StateM σ) β}
    (begun : Keeps kept first.run) (later : ∀ value, Keeps kept (second value).run) :
    Keeps kept (first >>= second).run := by
  rw [ExceptT.run_bind]
  apply begun.bind
  intro result
  cases result with
  | error e => exact keeps_pure _
  | ok value => exact later value

def FailsOnly (expected : ThemeError → Prop) (work : Task (StateM σ) α) : Prop :=
  ∀ disk e next, work.run disk = (.error e, next) → expected e

variable {expected : ThemeError → Prop}

theorem failsOnly_lift (work : StateM σ α) : FailsOnly expected (liftM work : Task (StateM σ) α) := by
  intro disk e next failed
  cases failed

theorem failsOnly_pure (value : α) : FailsOnly expected (pure value : Task (StateM σ) α) := by
  intro disk e next failed
  cases failed

theorem failsOnly_succeed (value : α) :
    FailsOnly expected (succeed (.ok value) : Task (StateM σ) α) := by
  intro disk e next failed
  cases failed

theorem failsOnly_throw {e : ThemeError} (known : expected e) :
    FailsOnly expected (throw e : Task (StateM σ) α) := by
  intro disk e next failed
  cases failed
  exact known

theorem FailsOnly.bind {first : Task (StateM σ) α} {second : α → Task (StateM σ) β}
    (begun : FailsOnly expected first) (later : ∀ value, FailsOnly expected (second value)) :
    FailsOnly expected (first >>= second) := by
  intro disk e next failed
  rcases done : first.run disk with ⟨_ | value, middle⟩
  · rw [run_bind_of_error second done] at failed
    cases failed
    exact begun _ _ _ done
  · rw [run_bind_of_ok second done] at failed
    exact later value _ _ _ failed

end

namespace MemoryDisk

/-- All that a disk holds, and where work on it starts. The log is left out. -/
def contents (disk : MemoryDisk) : Node × List String := (disk.root, disk.working)

end MemoryDisk

theorem keeps_report (line : Report) :
    Keeps MemoryDisk.contents (Disk.report line : StateM MemoryDisk Unit) := fun _ => rfl

theorem run_loadText (file : String) (failure : ThemeError) (disk : MemoryDisk) :
    (loadText file failure : Task (StateM MemoryDisk) String).run disk =
      match (disk.read file).bind String.fromUTF8? with
      | some text => (.ok text, disk)
      | none => (.error failure, disk) := by
  have same : (loadText file failure : Task (StateM MemoryDisk) String).run disk =
      (match (disk.read file).bind String.fromUTF8? with
        | some text => pure text
        | none => throw failure : Task (StateM MemoryDisk) String).run disk := rfl
  rw [same]
  cases (disk.read file).bind String.fromUTF8? <;> rfl

section

variable {disk : MemoryDisk} {file text : String} {failure : ThemeError} {format : Format}

theorem fromUTF8?_toUTF8 (s : String) : String.fromUTF8? s.toUTF8 = some s := by
  unfold String.fromUTF8?
  rw [String.toUTF8_eq_toByteArray, dif_pos s.isValidUTF8]
  rfl

theorem run_loadText_of_read (held : disk.read file = some text.toUTF8) :
    (loadText file failure : Task (StateM MemoryDisk) String).run disk = (.ok text, disk) := by
  rw [run_loadText, held, Option.bind_some, fromUTF8?_toUTF8]

theorem run_loadTree_of_read {tree : Tree} (held : disk.read file = some text.toUTF8)
    (known : Format.ofFile? file = some format) (parsed : readTree format file text = .ok tree) :
    (loadTree file : Task (StateM MemoryDisk) Tree).run disk = (.ok tree, disk) := by
  rw [loadTree, run_bind_of_ok _ (run_loadText_of_read held), known]
  simp only [parsed]
  rfl

theorem run_loadTree_of_error {e : TokenError} (held : disk.read file = some text.toUTF8)
    (known : Format.ofFile? file = some format) (failed : readTree format file text = .error e) :
    (loadTree file : Task (StateM MemoryDisk) Tree).run disk = (.error (.token e), disk) := by
  rw [loadTree, run_bind_of_ok _ (run_loadText_of_read held), known]
  simp only [failed]
  rfl

theorem run_loadTheme_of_read {document : Document} {theme : Theme}
    (held : disk.read file = some text.toUTF8) (known : Format.ofFile? file = some format)
    (parsed : readDocument format file text = .ok document)
    (read : Theme.ofDocument document = .ok theme) :
    (loadTheme file : Task (StateM MemoryDisk) Theme).run disk = (.ok theme, disk) := by
  have loaded : (loadDocument file : Task (StateM MemoryDisk) Document).run disk =
      (.ok document, disk) := by
    rw [loadDocument, run_bind_of_ok _ (run_loadText_of_read held), known]
    simp only [parsed]
    rfl
  rw [loadTheme, run_bind_of_ok _ loaded, read]
  rfl

end

section

variable {κ : Type} (kept : MemoryDisk → κ)

theorem keeps_loadText (file : String) (failure : ThemeError) :
    Keeps kept (loadText file failure : Task (StateM MemoryDisk) String).run := by
  intro disk
  rw [run_loadText]
  split <;> rfl

theorem keeps_loadTree (file : String) :
    Keeps kept (loadTree file : Task (StateM MemoryDisk) Tree).run := by
  apply (keeps_loadText kept file _).run_bind
  intro text
  split
  · exact keeps_throw _
  · split
    · exact keeps_pure _
    · exact keeps_throw _

theorem keeps_assembleJob (plan : Plan) (job : Job) :
    Keeps kept (assembleJob plan job : Task (StateM MemoryDisk) Theme).run := by
  apply (keeps_loadTree kept _).run_bind
  intro tree
  exact keeps_succeed _

theorem keeps_assembleJobs (plan : Plan) (jobs : List Job) :
    Keeps kept (assembleJobs plan jobs : Task (StateM MemoryDisk) (List Theme)).run := by
  induction jobs with
  | nil => exact keeps_pure _
  | cons job rest ih =>
      apply (keeps_assembleJob kept plan job).run_bind
      intro theme
      apply ih.run_bind
      intro themes
      exact keeps_pure _

theorem keeps_check (plan : Plan) :
    Keeps kept (check plan : Task (StateM MemoryDisk) (List Theme)).run :=
  keeps_assembleJobs kept plan plan.jobs

end

theorem run_assembleJobs_eq_ok_iff {plan : Plan} {jobs : List Job} {themes : List Theme}
    {disk next : MemoryDisk} :
    (assembleJobs plan jobs : Task (StateM MemoryDisk) (List Theme)).run disk = (.ok themes, next) ↔
      next = disk ∧ List.Forall₂ (fun job theme =>
        (assembleJob plan job : Task (StateM MemoryDisk) Theme).run disk = (.ok theme, disk))
        jobs themes := by
  induction jobs generalizing themes with
  | nil =>
      rw [List.forall₂_nil_left_iff]
      constructor
      · intro done
        cases done
        exact ⟨rfl, rfl⟩
      · rintro ⟨rfl, rfl⟩
        rfl
  | cons job rest ih =>
      constructor
      · intro done
        obtain ⟨theme, middle, first, later⟩ := exists_of_run_bind done
        obtain ⟨others, last, behind, finished⟩ := exists_of_run_bind later
        cases finished
        obtain rfl : middle = disk := (keeps_assembleJob id plan job).eq first
        obtain ⟨same, each⟩ := ih.mp behind
        exact ⟨same, .cons first each⟩
      · rintro ⟨rfl, each⟩
        obtain ⟨theme, others, first, later, rfl⟩ := List.forall₂_cons_left_iff.mp each
        rw [assembleJobs, run_bind_of_ok _ first, run_bind_of_ok _ (ih.mpr ⟨rfl, later⟩)]
        rfl

end DesignTokens.Build
