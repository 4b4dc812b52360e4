import DesignTokens.Build.FileName
import DesignTokens.Build.Format

/-!
Loading from files. What a disk can do is left open here, so that a build can be run and reasoned
about on any kind of disk.
-/

namespace DesignTokens.Build

open Theme Token

inductive Report where
  | info (text : String)
  | warning (text : String)

/-- A disk with a log beside it. A failure says no more than that it happened. -/
class Disk (m : Type → Type) where
  read : String → m (Option ByteArray)
  write : String → String → m Bool
  /-- Makes one folder. It is no failure if it is there already. -/
  makeFolder : String → m Bool
  report : Report → m Unit

abbrev Task (m : Type → Type) (α : Type) := ExceptT ThemeError m α

variable {m : Type → Type} [Monad m] [Disk m]

def succeed {α : Type} (result : Except ThemeError α) : Task m α :=
  match result with
  | .ok value => pure value
  | .error e => throw e

def makeEach : List String → m Bool
  | [] => pure true
  | folder :: rest => do
      if ← (Disk.makeFolder folder : m Bool) then makeEach rest
      else pure false

/-- A folder with all folders above it. The empty path asks for none. -/
def makeFolders (folder : String) : m Bool :=
  if folder = "" then pure true
  else if isPath folder then makeEach (chain folder)
  else pure false

def loadText (file : String) (failure : ThemeError) : Task m String := do
  match (← (Disk.read file : m _)).bind String.fromUTF8? with
  | some text => pure text
  | none => throw failure

def loadTree (file : String) : Task m Tree := do
  let text ← loadText file (.token (.unreadable file))
  match Format.ofFile? file with
  | none => throw (.token (.unknownFormat file))
  | some format =>
      match readTree format file text with
      | .ok tree => pure tree
      | .error e => throw (.token e)

def loadDocument (file : String) : Task m Document := do
  let text ← loadText file (.unreadable file)
  match Format.ofFile? file with
  | none => throw (.unknownFormat file)
  | some format => succeed (readDocument format file text)

def loadTheme (file : String) : Task m Theme := do
  succeed (Theme.ofDocument (← loadDocument file))

def loadOverrides (file : String) : Task m Overrides := do
  succeed (Overrides.ofDocument (← loadDocument file))

end DesignTokens.Build
