import DesignTokens.Build.Disk
import DesignTokens.Theme.Base

/-! Plans: where token files are, where generated files go, and which themes are built. -/

namespace DesignTokens.Build

open Theme Token

structure Job where
  file : String
  name : String
  deriving DecidableEq

structure Plan where
  tokensDir : String
  outDir : String
  jobs : List Job

namespace Plan

def standard : Plan := ⟨"design-tokens", "generated", [⟨"Default.tokens.json", defaultName⟩]⟩

def textOr (fallback : String) : Option Document → Option String
  | none => some fallback
  | some value => value.text?

/-- A job is a table, or an array of its two values. Anything beside them is ignored. -/
def readJob : Document → Option Job
  | .object entries => do
      let file ← Entries.value? "file" entries
      let name ← Entries.value? "name" entries
      some ⟨← file.text?, ← name.text?⟩
  | .array (file :: name :: _) => do some ⟨← file.text?, ← name.text?⟩
  | _ => none

def readJobs : Option Document → Option (List Job)
  | none => some standard.jobs
  | some (.array items) => items.mapM readJob
  | some _ => none

/-- What is missing keeps its standard value, and unknown names are ignored. -/
def ofDocument? (document : Document) : Option Plan := do
  let entries ← document.entries?
  let tokensDir ← textOr standard.tokensDir (entries.value? "tokens_dir")
  let outDir ← textOr standard.outDir (entries.value? "out_dir")
  let jobs ← readJobs (entries.value? "theme")
  some ⟨tokensDir, outDir, jobs⟩

def read (file text : String) : Except ThemeError Plan :=
  match (Toml.read text).bind ofDocument? with
  | some plan => .ok plan
  | none => .error (.malformed file)

def withTokensDir (plan : Plan) (folder : String) : Plan := { plan with tokensDir := folder }

def withOutDir (plan : Plan) (folder : String) : Plan := { plan with outDir := folder }

/-- A job for a theme replaces all others for it. -/
def withJob (plan : Plan) (job : Job) : Plan :=
  { plan with jobs := (plan.jobs.filter fun other => other.name ≠ job.name) ++ [job] }

def only (plan : Plan) (name : String) : Except ThemeError Plan :=
  match plan.jobs.filter fun job => job.name = name with
  | [] => .error (.themeNotFound name)
  | jobs => .ok { plan with jobs := jobs }

def tokenFile (plan : Plan) (job : Job) : String := below plan.tokensDir job.file

structure Environment where
  planFile? : Option String
  tokensDir? : Option String
  outDir? : Option String

def Environment.ofVariables (value? : String → Option String) : Environment :=
  ⟨value? "CAST_BUILD_CONFIG", value? "CAST_TOKENS_DIR", value? "CAST_OUT_DIR"⟩

variable {m : Type → Type} [Monad m] [Disk m]

/-- Only TOML files hold plans; another extension is refused unread. -/
def load (file : String) : Task m Plan := do
  if Format.ofFile? file = some .toml then
    let text ← loadText file (.unreadable file)
    (Disk.report (.info ("Loading build config from " ++ Text.quote file)) : m Unit)
    succeed (read file text)
  else throw (.unknownFormat file)

/-- A plan file that cannot be loaded is passed over with a warning. -/
def ofPlanFile : Option String → m Plan
  | none => pure standard
  | some file => do
      match ← (load file : Task m Plan).run with
      | .ok plan => pure plan
      | .error e => do
          Disk.report (.warning ("Ignoring build config from CAST_BUILD_CONFIG: " ++ e.message))
          pure standard

def ofEnvironment (environment : Environment) : m Plan := do
  let plan ← ofPlanFile environment.planFile?
  pure {
    plan with
    tokensDir := environment.tokensDir?.getD plan.tokensDir
    outDir := environment.outDir?.getD plan.outDir }

end Plan

end DesignTokens.Build
