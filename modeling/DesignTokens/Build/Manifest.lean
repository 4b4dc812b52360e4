import DesignTokens.Build.Plan
import DesignTokens.Toml.Writer

/-! Generated texts: theme sources, reference copies, and the manifest that lists them. -/

namespace DesignTokens.Build

open Theme

def header : String := "# Auto-generated by cast-build - DO NOT EDIT"

def render (entries : Entries Document) : Except ThemeError String :=
  match Toml.render entries with
  | .ok text => .ok text
  | .error .null => .error .unwritableNull
  | .error .tooLarge => .error .unwritableInteger

def themeSource (theme : Theme) (file : String) : Except ThemeError String :=
  match render (theme.toDocument.entries?.getD []) with
  | .ok body => .ok (header ++ "\n# Source: " ++ file ++ "\n\n" ++ body)
  | .error e => .error e

def referenceText (theme : Theme) : String := Json.writeIndented 0 theme.toDocument ++ "\n"

structure Listing where
  name : String
  source : String
  theme : String
  reference : String
  deriving DecidableEq

namespace Listing

def ofJob (job : Job) : Listing :=
  ⟨job.name, job.file, job.name ++ ".theme.toml", job.name ++ ".reference.json"⟩

def toDocument (listing : Listing) : Document :=
  .object [("name", .text listing.name), ("source", .text listing.source),
    ("theme", .text listing.theme), ("reference", .text listing.reference)]

/-- A listing is a table, or an array of its four values. Anything beside them is ignored. -/
def ofDocument? : Document → Option Listing
  | .object entries => do
      let name ← Entries.value? "name" entries
      let source ← Entries.value? "source" entries
      let theme ← Entries.value? "theme" entries
      let reference ← Entries.value? "reference" entries
      some ⟨← name.text?, ← source.text?, ← theme.text?, ← reference.text?⟩
  | .array (name :: source :: theme :: reference :: _) => do
      some ⟨← name.text?, ← source.text?, ← theme.text?, ← reference.text?⟩
  | _ => none

end Listing

structure Manifest where
  listings : List Listing

namespace Manifest

def fileName : String := "index.toml"

def entries (manifest : Manifest) : Entries Document :=
  [("theme", .array (manifest.listings.map Listing.toDocument))]

def text (manifest : Manifest) : Except ThemeError String :=
  match render manifest.entries with
  | .ok body => .ok (header ++ "\n\n" ++ body)
  | .error e => .error e

/-- A manifest without a list of themes lists none. -/
def ofDocument? (document : Document) : Option Manifest := do
  let entries ← document.entries?
  match entries.value? "theme" with
  | none => some ⟨[]⟩
  | some (.array items) => (items.mapM Listing.ofDocument?).map Manifest.mk
  | some _ => none

def read (file text : String) : Except ThemeError Manifest :=
  match (Toml.read text).bind ofDocument? with
  | some manifest => .ok manifest
  | none => .error (.malformed file)

variable {m : Type → Type} [Monad m] [Disk m]

/-- A manifest is TOML whatever its file is called. -/
def load (file : String) : Task m Manifest := do
  succeed (read file (← loadText file (.unreadable file)))

end Manifest

end DesignTokens.Build
