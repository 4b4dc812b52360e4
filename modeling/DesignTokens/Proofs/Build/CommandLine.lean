import DesignTokens.Proofs.Build.Overwriting

/-!
Running a command line. A run that checks changes no file, and neither does one that fails to load its
plan or to assemble a theme; once everything is assembled only the disk can make a run fail.
-/

namespace DesignTokens.Build

open MemoryDisk Theme Plan Token

variable {disk next : MemoryDisk} {plan : Plan} {themes : List Theme}

/-- The plan of a request can be loaded, and every theme of it assembled. -/
def Request.Sound (request : Request) (environment : Environment) (disk : MemoryDisk) : Prop :=
  ∃ plan after, (request.loadPlan environment : StateM MemoryDisk _) disk = (.ok plan, after) ∧
    plan.Assembles after

variable {request : Request} {environment : Environment}

theorem run_of_unloaded {stage : Stage} {cause : ThemeError}
    (failed : (request.loadPlan environment : StateM MemoryDisk _) disk = (.error (stage, cause), next)) :
    (request.run environment : StateM MemoryDisk Outcome) disk = (.failure stage cause, next) := by
  rw [Request.run, bind_of_eq _ failed]
  rfl

theorem run_of_loaded
    (loaded : (request.loadPlan environment : StateM MemoryDisk _) disk = (.ok plan, next)) :
    (request.run environment : StateM MemoryDisk Outcome) disk =
      (if request.checkOnly then checkPlan plan else buildPlan plan : StateM MemoryDisk _) next := by
  rw [Request.run, bind_of_eq _ loaded]

theorem checkPlan_of_error {e : ThemeError}
    (failed : (check plan : Task (StateM MemoryDisk) _).run disk = (.error e, next)) :
    (checkPlan plan : StateM MemoryDisk Outcome) disk = (.failure .checking e, next) := by
  rw [checkPlan, bind_of_eq _ failed]
  rfl

theorem checkPlan_of_ok
    (checked : (check plan : Task (StateM MemoryDisk) _).run disk = (.ok themes, disk)) :
    ∃ after, after.contents = disk.contents ∧
      (checkPlan plan : StateM MemoryDisk Outcome) disk = (.success, after) := by
  rw [checkPlan, bind_of_eq _ checked]
  exact ⟨(reportChecked themes : StateM MemoryDisk Unit) disk |>.2, keeps_reportChecked themes disk, rfl⟩

theorem buildPlan_of_error {e : ThemeError}
    (failed : (build plan : Task (StateM MemoryDisk) _).run disk = (.error e, next)) :
    (buildPlan plan : StateM MemoryDisk Outcome) disk = (.failure (.building plan.outDir) e, next) := by
  rw [buildPlan, bind_of_eq _ failed]
  rfl

theorem buildPlan_of_ok {manifest : Manifest}
    (done : (build plan : Task (StateM MemoryDisk) _).run disk = (.ok manifest, next)) :
    ∃ after, after.contents = next.contents ∧
      (buildPlan plan : StateM MemoryDisk Outcome) disk = (.success, after) := by
  rw [buildPlan, bind_of_eq _ done]
  refine ⟨_, ?_, rfl⟩
  rfl

/-- What fails before anything is written fails in the same way if the run only checks. -/
theorem run_of_unsound (unsound : ¬ request.Sound environment disk) :
    ∃ cause after, after.contents = disk.contents ∧ ∀ checkOnly, ∃ stage,
      ({ request with checkOnly := checkOnly }.run environment : StateM MemoryDisk Outcome) disk =
        (.failure stage cause, after) := by
  rcases loaded : (request.loadPlan environment : StateM MemoryDisk _) disk with
    ⟨⟨stage, cause⟩ | plan, after⟩
  · exact ⟨cause, after, (keeps_loadPlan request environment).eq loaded,
      fun checkOnly => ⟨stage, run_of_unloaded loaded⟩⟩
  · rcases check_cases plan after with ⟨assembles, -⟩ | ⟨-, e, failed⟩
    · exact absurd ⟨plan, after, loaded, assembles⟩ unsound
    · refine ⟨e, after, (keeps_loadPlan request environment).eq loaded, fun checkOnly => ?_⟩
      -- The option plays no part in loading.
      have loaded' : ({ request with checkOnly := checkOnly }.loadPlan environment :
          StateM MemoryDisk _) disk = (.ok plan, after) := loaded
      rw [run_of_loaded loaded']
      cases checkOnly with
      | true => exact ⟨.checking, checkPlan_of_error failed⟩
      | false => exact ⟨.building plan.outDir, buildPlan_of_error (run_bind_of_error _ failed)⟩

theorem check_of_sound (sound : request.Sound environment disk) (only : request.checkOnly = true) :
    ∃ after, after.contents = disk.contents ∧
      (request.run environment : StateM MemoryDisk Outcome) disk = (.success, after) := by
  obtain ⟨plan, middle, loaded, assembles⟩ := sound
  have kept := (keeps_loadPlan request environment).eq loaded
  rcases check_cases plan middle with ⟨-, themes, checked⟩ | ⟨fails, -⟩
  · obtain ⟨after, same, done⟩ := checkPlan_of_ok checked
    refine ⟨after, same.trans kept, ?_⟩
    rw [run_of_loaded loaded, if_pos only, done]
  · exact absurd assembles fails

theorem build_of_sound (sound : request.Sound environment disk) (build : request.checkOnly = false) :
    ∃ outcome after,
      (request.run environment : StateM MemoryDisk Outcome) disk = (outcome, after) ∧
        (outcome = .success ∨ ∃ stage file, outcome = .failure stage (.unwritable file)) := by
  obtain ⟨plan, middle, loaded, assembles⟩ := sound
  rw [run_of_loaded loaded, build, if_neg Bool.false_ne_true]
  rcases check_cases plan middle with ⟨-, themes, checked⟩ | ⟨fails, -⟩
  · rcases done : (Build.build plan : Task (StateM MemoryDisk) _).run middle with
      ⟨e | manifest, after⟩
    · obtain ⟨file, rfl⟩ := unwritable_of_build checked done
      exact ⟨_, after, buildPlan_of_error done, .inr ⟨_, file, rfl⟩⟩
    · obtain ⟨last, -, built⟩ := buildPlan_of_ok done
      exact ⟨_, last, built, .inl rfl⟩
  · exact absurd assembles fails

def Request.checking (request : Request) : Request := { request with checkOnly := true }

theorem Request.give_checking {value : String} {setting : Setting} {given : Request}
    (taken : request.give value setting = some given) :
    given.checkOnly = request.checkOnly ∧
      request.checking.give value setting = some given.checking := by
  cases setting with
  | planFile =>
      obtain ⟨file, filled, rfl⟩ := Option.map_eq_some_iff.mp taken
      exact ⟨rfl, by simp [Request.give, Request.checking, filled]⟩
  | tokensDir =>
      obtain ⟨folder, filled, rfl⟩ := Option.map_eq_some_iff.mp taken
      exact ⟨rfl, by simp [Request.give, Request.checking, filled]⟩
  | outDir =>
      obtain ⟨folder, filled, rfl⟩ := Option.map_eq_some_iff.mp taken
      exact ⟨rfl, by simp [Request.give, Request.checking, filled]⟩
  | theme =>
      obtain ⟨name, filled, rfl⟩ := Option.map_eq_some_iff.mp taken
      exact ⟨rfl, by simp [Request.give, Request.checking, filled]⟩

theorem checkOnly_of_read {arguments : List String} {start : Request}
    (parses : Invocation.read start arguments = some (.run request))
    (set : start.checkOnly = true) : request.checkOnly = true := by
  fun_induction Invocation.read start arguments with
  | case1 start =>
      cases parses
      exact set
  | case4 start =>
      cases parses
      exact set
  | case7 start text rest reads unset ih => exact ih parses rfl
  | case8 start text setting value rest reads next given ih =>
      exact ih parses ((Request.give_checking given).1.trans set)
  | case11 start text setting value rest reads follows next given ih =>
      exact ih parses ((Request.give_checking given).1.trans set)
  | _ => cases parses

/-- The option to write nothing can be put in front of any other arguments. -/
theorem read_checking {arguments : List String} {start : Request}
    (parses : Invocation.read start arguments = some (.run request))
    (unset : request.checkOnly = false) :
    Invocation.read start.checking arguments = some (.run request.checking) := by
  fun_induction Invocation.read start arguments with
  | case1 start =>
      cases parses
      rfl
  | case4 start text rest reads done =>
      cases parses
      rw [Invocation.read.eq_def]
      simp only [reads, done, if_true]
  | case7 start text rest reads _ ih =>
      rw [checkOnly_of_read parses rfl] at unset
      cases unset
  | case8 start text setting value rest reads next given ih =>
      rw [Invocation.read.eq_def]
      simp only [reads, (Request.give_checking given).2]
      exact ih parses
  | case11 start text setting value rest reads follows next given ih =>
      rw [Invocation.read.eq_def]
      simp only [reads, follows, if_true, (Request.give_checking given).2]
      exact ih parses
  | _ => cases parses

theorem runCommand_eq {arguments : List String}
    (parses : Invocation.read .plain arguments = some (.run request)) (environment : Environment) :
    (runCommand arguments environment : StateM MemoryDisk Outcome) = request.run environment := by
  rw [runCommand, parses]

/--
A run with `--check` leaves all files alone and ends well exactly when everything can be assembled. Any
other run fails in the same way before it writes, or it fails to write.
-/
theorem runCommand_spec {arguments : List String}
    (parses : Invocation.read .plain arguments = some (.run request)) (environment : Environment)
    (disk : MemoryDisk) :
    ∃ outcome after,
      (runCommand arguments environment : StateM MemoryDisk Outcome) disk = (outcome, after) ∧
      (request.checkOnly = true → after.contents = disk.contents ∧
        (outcome.code = 0 ↔ request.Sound environment disk)) ∧
      (request.checkOnly = false →
        (¬ request.Sound environment disk → after.contents = disk.contents ∧ outcome.code ≠ 0 ∧
          ∃ stage cause stage' last, outcome = .failure stage cause ∧
            (runCommand ("--check" :: arguments) environment : StateM MemoryDisk Outcome) disk =
              (.failure stage' cause, last)) ∧
        (request.Sound environment disk →
          outcome = .success ∨ ∃ stage file, outcome = .failure stage (.unwritable file))) := by
  rw [runCommand_eq parses]
  by_cases sound : request.Sound environment disk
  · cases only : request.checkOnly with
    | true =>
        obtain ⟨after, same, done⟩ := check_of_sound sound only
        exact ⟨_, after, done, fun _ => ⟨same, iff_of_true rfl sound⟩, nofun⟩
    | false =>
        obtain ⟨outcome, after, done, ends⟩ := build_of_sound sound only
        exact ⟨outcome, after, done, nofun, fun _ => ⟨fun unsound => absurd sound unsound,
          fun _ => ends⟩⟩
  · obtain ⟨cause, after, same, fails⟩ := run_of_unsound sound
    obtain ⟨stage, failed⟩ := fails request.checkOnly
    refine ⟨_, after, failed, ?_, ?_⟩
    · exact fun _ => ⟨same, iff_of_false Nat.one_ne_zero sound⟩
    · intro unset
      have parses' : Invocation.read .plain ("--check" :: arguments) = some (.run request.checking) :=
        read_checking parses unset
      obtain ⟨stage', failed'⟩ := fails true
      refine ⟨fun _ => ⟨same, Nat.one_ne_zero, stage, cause, stage', after, rfl, ?_⟩, ?_⟩
      · rw [runCommand_eq parses']
        exact failed'
      · exact fun other => absurd other sound

def skyText : String :=
  "[[theme]]\nfile = \"Day.toml\"\nname = \"day\"\n\n[[theme]]\nfile = \"Night.toml\"\nname = \"night\"\n"

theorem read_skyText : Plan.read "build.toml" skyText = .ok (skyPlan "night") :=
  Plan.read_of_parts (by decide +kernel) _

def skyReport : Report := .info ("Loading build config from " ++ Text.quote "build.toml")

def skyDisk (tokens : Node) (reports : List Report) : MemoryDisk :=
  workplace tokens [("build.toml", .file skyText.toUTF8)] reports

def skyRequest (checkOnly : Bool) : Request := ⟨some "build.toml", none, none, none, checkOnly⟩

theorem loadPlan_sky (tokens : Node) (checkOnly : Bool) (environment : Environment) :
    ((skyRequest checkOnly).loadPlan environment : StateM MemoryDisk _) (skyDisk tokens []) =
      (.ok (skyPlan "night"), skyDisk tokens [skyReport]) := by
  have here : below "" "build.toml" = "build.toml" := by decide
  have held : (skyDisk tokens []).read "build.toml" = some skyText.toUTF8 := by
    rw [← here]
    exact read_below (by decide) (by decide) rfl rfl rfl
  have reported : (Disk.report skyReport : StateM MemoryDisk Unit) (skyDisk tokens []) =
      ((), skyDisk tokens [skyReport]) := rfl
  have loaded : (Plan.load "build.toml" : Task (StateM MemoryDisk) Plan).run (skyDisk tokens []) =
      (.ok (skyPlan "night"), skyDisk tokens [skyReport]) := by
    rw [Plan.load, if_pos (by decide), run_bind_of_ok _ (run_loadText_of_read held), ← skyReport,
      run_bind_of_ok _ (run_lift_eq_ok_iff.mpr reported), run_succeed, read_skyText]
  rw [Request.loadPlan]
  simp only [skyRequest, bind_of_eq _ loaded]
  rfl

theorem sound_sky (checkOnly : Bool) (environment : Environment) :
    (skyRequest checkOnly).Sound environment (skyDisk (tokensFolder skies) []) :=
  ⟨_, _, loadPlan_sky _ checkOnly environment,
    assembles_workplace rfl (stocked_sky "night") (nameable_sky nameable_night) _ _⟩

theorem run_sky (environment : Environment) : ∃ after,
    ((skyRequest false).run environment : StateM MemoryDisk Outcome)
        (skyDisk (tokensFolder skies) []) = (.success, after) ∧
      after.read (below "generated" Manifest.fileName) =
        some (manifestText (skyPlan "night").manifest).toUTF8 := by
  obtain ⟨middle, done⟩ := exists_build_workplace rfl rfl (stocked_sky "night")
    (nameable_sky nameable_night) [("build.toml", .file skyText.toUTF8)] [skyReport]
  have whole : (skyPlan "night").Whole := fun job listed => (nameable_sky nameable_night job listed).whole
  obtain ⟨-, themes, place, built⟩ := built_of_build whole done
  obtain ⟨after, same, success⟩ := buildPlan_of_ok done
  refine ⟨after, ?_, (read_of_contents same _).trans built.read_index⟩
  rw [run_of_loaded (loadPlan_sky _ false environment), skyRequest, if_neg Bool.false_ne_true]
  exact success

def clouded : List (String × Node) :=
  [("Day.toml", .file "clouds".toUTF8), ("Night.toml", .file (tokenText "moon").toUTF8)]

def cloudCause : ThemeError := .token (.malformed (below "design-tokens" "Day.toml"))

theorem assembleJob_clouded (others : List (String × Node)) (reports : List Report) :
    (assembleJob (skyPlan "night") ⟨"Day.toml", "day"⟩ : Task (StateM MemoryDisk) Theme).run
        (workplace (.folder clouded) others reports) =
      (.error cloudCause, workplace (.folder clouded) others reports) := by
  have held : (workplace (.folder clouded) others reports).read (below "design-tokens" "Day.toml") =
      some "clouds".toUTF8 := read_token others reports stocked_day.name stocked_day.fits rfl
  have failed : readTree .toml (below "design-tokens" "Day.toml") "clouds" =
      .error (.malformed (below "design-tokens" "Day.toml")) := by
    have none : Toml.read "clouds" = none := Option.isNone_iff_eq_none.mp (by decide +kernel)
    rw [readTree, Format.read, none]
  rw [assembleJob]
  exact run_bind_of_error _ (run_loadTree_of_error held stocked_day.toml failed)

theorem unsound_clouded (checkOnly : Bool) (environment : Environment) :
    ¬ (skyRequest checkOnly).Sound environment (skyDisk (.folder clouded) []) := by
  rintro ⟨plan, after, loaded, assembles⟩
  rw [loadPlan_sky] at loaded
  cases loaded
  obtain ⟨theme, assembled⟩ := assembles ⟨"Day.toml", "day"⟩ List.mem_cons_self
  cases (assembleJob_clouded _ _).symm.trans assembled

theorem run_clouded (environment : Environment) :
    ((skyRequest false).run environment : StateM MemoryDisk Outcome) (skyDisk (.folder clouded) []) =
      (.failure (.building "generated") cloudCause, skyDisk (.folder clouded) [skyReport]) := by
  rw [run_of_loaded (loadPlan_sky _ false environment), skyRequest, if_neg Bool.false_ne_true]
  have stopped := run_bind_of_error (fun theme => do
    pure (theme :: (← assembleJobs (skyPlan "night") [⟨"Night.toml", "night"⟩])))
    (assembleJob_clouded [("build.toml", .file skyText.toUTF8)] [skyReport])
  exact buildPlan_of_error (run_bind_of_error _ stopped)

/--
Where all themes can be assembled, `--check` leaves the disk alone and the build writes its files. Where a
token file is broken, both fail for it and neither writes anything.
-/
theorem runCommand_under_skies :
    Invocation.read .plain ["--config", "build.toml"] = some (.run (skyRequest false)) ∧
    Invocation.read .plain ["--check", "--config", "build.toml"] = some (.run (skyRequest true)) ∧
    (∃ outcome after,
      (runCommand ["--check", "--config", "build.toml"] ⟨none, none, none⟩ : StateM MemoryDisk Outcome)
        (skyDisk (tokensFolder skies) []) = (outcome, after) ∧
      outcome.code = 0 ∧ after.contents = (skyDisk (tokensFolder skies) []).contents) ∧
    (∃ after,
      (runCommand ["--config", "build.toml"] ⟨none, none, none⟩ : StateM MemoryDisk Outcome)
        (skyDisk (tokensFolder skies) []) = (.success, after) ∧
      after.read (below "generated" Manifest.fileName) =
        some (manifestText (skyPlan "night").manifest).toUTF8) ∧
    ∃ stage after last,
      (runCommand ["--config", "build.toml"] ⟨none, none, none⟩ : StateM MemoryDisk Outcome)
        (skyDisk (.folder clouded) []) = (.failure (.building "generated") cloudCause, after) ∧
      after.contents = (skyDisk (.folder clouded) []).contents ∧
      (runCommand ["--check", "--config", "build.toml"] ⟨none, none, none⟩ : StateM MemoryDisk Outcome)
        (skyDisk (.folder clouded) []) = (.failure stage cloudCause, last) ∧
      last.contents = (skyDisk (.folder clouded) []).contents := by
  have parses : Invocation.read .plain ["--config", "build.toml"] = some (.run (skyRequest false)) :=
    rfl
  have parses' : Invocation.read .plain ["--check", "--config", "build.toml"] =
      some (.run (skyRequest true)) :=
    read_checking parses rfl
  refine ⟨parses, parses', ?_, ?_, ?_⟩
  · obtain ⟨outcome, after, done, checking, -⟩ :=
      runCommand_spec parses' ⟨none, none, none⟩ (skyDisk (tokensFolder skies) [])
    obtain ⟨same, code⟩ := checking rfl
    exact ⟨outcome, after, done, code.mpr (sound_sky true _), same⟩
  · rw [runCommand_eq parses]
    exact run_sky ⟨none, none, none⟩
  · obtain ⟨outcome, after, done, -, building⟩ :=
      runCommand_spec parses ⟨none, none, none⟩ (skyDisk (.folder clouded) [])
    obtain ⟨same, -, stage, cause, stage', last, rfl, done'⟩ :=
      (building rfl).1 (unsound_clouded false _)
    have known := done
    rw [runCommand_eq parses, run_clouded] at known
    cases known
    obtain ⟨outcome', last', again, checking, -⟩ :=
      runCommand_spec parses' ⟨none, none, none⟩ (skyDisk (.folder clouded) [])
    cases done'.symm.trans again
    exact ⟨stage', _, last, done, same, done', (checking rfl).1⟩

end DesignTokens.Build
