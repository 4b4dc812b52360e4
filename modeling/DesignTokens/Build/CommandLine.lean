import DesignTokens.Build.Run

/-!
The command line: what its arguments ask for, and the run they lead to. Arguments are read from
left to right, and the first one that cannot be read, or asks for help, settles the matter.
-/

namespace DesignTokens.Build

open Theme Plan

inductive Setting where
  | planFile
  | tokensDir
  | outDir
  | theme
  deriving DecidableEq

def Setting.ofLong? : List Char → Option Setting
  | name =>
      if name = "config".toList then some .planFile
      else if name = "tokens-dir".toList then some .tokensDir
      else if name = "out-dir".toList then some .outDir
      else if name = "theme".toList then some .theme
      else none

structure Request where
  planFile? : Option String
  tokensDir? : Option String
  outDir? : Option String
  theme? : Option String
  checkOnly : Bool

namespace Request

def plain : Request := ⟨none, none, none, none, false⟩

def fill (old : Option String) (value : String) : Option (Option String) :=
  if old.isSome then none else some (some value)

def fillFile (old : Option String) (value : String) : Option (Option String) :=
  if value = "" then none else fill old value

def give (request : Request) (value : String) : Setting → Option Request
  | .planFile => (fillFile request.planFile? value).map fun v => { request with planFile? := v }
  | .tokensDir => (fillFile request.tokensDir? value).map fun v => { request with tokensDir? := v }
  | .outDir => (fillFile request.outDir? value).map fun v => { request with outDir? := v }
  | .theme => (fill request.theme? value).map fun v => { request with theme? := v }

end Request

/-- An argument on its own. The value of an option may be attached to it or follow it. -/
inductive Argument where
  | help
  | check
  | setting (setting : Setting) (value? : Option String)
  | done

namespace Argument

def ofLong? (text : List Char) : Option Argument :=
  let name := text.takeWhile (· ≠ '=')
  match text.dropWhile (· ≠ '=') with
  | _ :: value =>
      (Setting.ofLong? name).map fun setting => .setting setting (some (String.ofList value))
  | [] =>
      if name = "help".toList then some .help
      else if name = "check".toList then some .check
      else (Setting.ofLong? name).map fun setting => .setting setting none

def ofShort? : List Char → Option Argument
  | 'h' :: _ => some .help
  | ['c'] => some (.setting .planFile none)
  | 'c' :: '=' :: value => some (.setting .planFile (some (String.ofList value)))
  | 'c' :: value => some (.setting .planFile (some (String.ofList value)))
  | _ => none

def ofText? (text : String) : Option Argument :=
  match text.toList with
  | ['-', '-'] => some .done
  | '-' :: '-' :: long => ofLong? long
  | '-' :: short => ofShort? short
  | _ => none

/-- A lone dash is a value; anything longer that starts with one is an option. -/
def isValue (text : String) : Bool := text = "-" || text.toList.head? ≠ some '-'

end Argument

inductive Invocation where
  | help
  | run (request : Request)

def Invocation.read (request : Request) : List String → Option Invocation
  | [] => some (.run request)
  | text :: rest =>
      match Argument.ofText? text, rest with
      | none, _ => none
      | some .help, _ => some .help
      | some .done, rest => if rest.isEmpty then some (.run request) else none
      | some .check, rest =>
          if request.checkOnly then none else read { request with checkOnly := true } rest
      | some (.setting setting (some value)), rest =>
          match request.give value setting with
          | some request => read request rest
          | none => none
      | some (.setting _ none), [] => none
      | some (.setting setting none), value :: rest =>
          if Argument.isValue value then
            match request.give value setting with
            | some request => read request rest
            | none => none
          else none

inductive Stage where
  | loading (file : String)
  | choosing (theme : String)
  | checking
  | building (folder : String)

def Stage.message : Stage → String
  | loading file => "Failed to load build config " ++ Text.quote file
  | choosing theme => "Theme '" ++ theme ++ "' is not configured"
  | checking => "Token check failed"
  | building folder => "Failed to build themes into " ++ Text.quote folder

inductive Outcome where
  | success
  | help
  | misuse
  | failure (stage : Stage) (cause : ThemeError)

def Outcome.code : Outcome → Nat
  | success => 0
  | help => 0
  | misuse => 2
  | failure _ _ => 1

def Outcome.error? : Outcome → Option String
  | failure stage cause =>
      some ("Error: " ++ stage.message ++ "\n\nCaused by:\n    " ++ cause.message)
  | _ => none

variable {m : Type → Type} [Monad m] [Disk m]

/--
The plan of a request: its own file, or else the environment, with the request's settings on top.
-/
def Request.loadPlan (request : Request) (environment : Environment) :
    m (Except (Stage × ThemeError) Plan) := do
  let plan ← match request.planFile? with
    | some file => do
        match ← (Plan.load file : Task m Plan).run with
        | .ok plan => pure (Except.ok plan)
        | .error e => pure (.error (Stage.loading file, e))
    | none => do pure (.ok (← Plan.ofEnvironment environment))
  pure (plan.bind fun plan =>
    let plan := { plan with
      tokensDir := request.tokensDir?.getD plan.tokensDir
      outDir := request.outDir?.getD plan.outDir }
    match request.theme? with
    | none => .ok plan
    | some name =>
        match plan.only name with
        | .ok plan => .ok plan
        | .error e => .error (.choosing name, e))

def reportChecked : List Theme → m Unit
  | [] => pure ()
  | theme :: rest => do
      Disk.report (.info ("Theme '" ++ theme.name ++ "' assembles cleanly"))
      reportChecked rest

def checkPlan (plan : Plan) : m Outcome := do
  match ← (check plan : Task m (List Theme)).run with
  | .error e => pure (.failure .checking e)
  | .ok themes => do
      reportChecked themes
      pure .success

def buildPlan (plan : Plan) : m Outcome := do
  match ← (build plan : Task m Manifest).run with
  | .error e => pure (.failure (.building plan.outDir) e)
  | .ok manifest => do
      let count := toString manifest.listings.length
      Disk.report (.info ("Token build complete (" ++ count ++ " themes)"))
      pure .success

def Request.run (request : Request) (environment : Environment) : m Outcome := do
  match ← (request.loadPlan environment : m (Except (Stage × ThemeError) Plan)) with
  | .error (stage, e) => pure (.failure stage e)
  | .ok plan => if request.checkOnly then checkPlan plan else buildPlan plan

def runCommand (arguments : List String) (environment : Environment) : m Outcome :=
  match Invocation.read .plain arguments with
  | none => pure .misuse
  | some .help => pure .help
  | some (.run request) => request.run environment

end DesignTokens.Build
