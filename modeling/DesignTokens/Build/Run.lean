import DesignTokens.Build.Manifest
import DesignTokens.Theme.Catalogue

/-! Running a plan. Every theme is assembled before the first file is written. -/

namespace DesignTokens.Build

open Theme

variable {m : Type → Type} [Monad m] [Disk m]

def assembleJob (plan : Plan) (job : Job) : Task m Theme := do
  let tree ← loadTree (plan.tokenFile job)
  succeed (assemble tree job.name)

def assembleJobs (plan : Plan) : List Job → Task m (List Theme)
  | [] => pure []
  | job :: rest => do
      let theme ← assembleJob plan job
      let themes ← assembleJobs plan rest
      pure (theme :: themes)

/-- All themes of a plan, and nothing written. -/
def check (plan : Plan) : Task m (List Theme) := assembleJobs plan plan.jobs

def writeFile (file text : String) : Task m Unit := do
  if ← (Disk.write file text : m Bool) then
    (Disk.report (.info ("Wrote " ++ Text.quote file)) : m Unit)
  else throw (.unwritable file)

def writeTheme (plan : Plan) (job : Job) (theme : Theme) : Task m Listing := do
  let listing := Listing.ofJob job
  writeFile (below plan.outDir listing.theme) (← succeed (themeSource theme job.file))
  writeFile (below plan.outDir listing.reference) (referenceText theme)
  (Disk.report (.info ("Built theme '" ++ job.name ++ "' from " ++ job.file)) : m Unit)
  pure listing

def writeThemes (plan : Plan) : List (Job × Theme) → Task m (List Listing)
  | [] => pure []
  | (job, theme) :: rest => do
      let listing ← writeTheme plan job theme
      let listings ← writeThemes plan rest
      pure (listing :: listings)

def build (plan : Plan) : Task m Manifest := do
  let themes ← check plan
  if ← (makeFolders plan.outDir : m Bool) then
    let manifest : Manifest := ⟨← writeThemes plan (plan.jobs.zip themes)⟩
    writeFile (below plan.outDir Manifest.fileName) (← succeed manifest.text)
    pure manifest
  else throw (.unwritable plan.outDir)

def loadListings (folder : String) : List Listing → Catalogue → Task m Catalogue
  | [], catalogue => pure catalogue
  | listing :: rest, catalogue => do
      let theme ← loadTheme (below folder listing.theme)
      loadListings folder rest (catalogue.register theme)

def loadGenerated (folder : String) : Task m Catalogue := do
  let manifest ← Manifest.load (below folder Manifest.fileName)
  loadListings folder manifest.listings .empty

end DesignTokens.Build
