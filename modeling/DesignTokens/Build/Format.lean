import DesignTokens.Build.FileName
import DesignTokens.Json.Reader
import DesignTokens.Theme.Overrides
import DesignTokens.Toml.Reader
import DesignTokens.Token.Tree

/-! The two formats that documents are read from, and what is read from them. -/

namespace DesignTokens.Build

open Theme Token

inductive Format where
  | json
  | toml
  deriving DecidableEq

namespace Format

def read : Format → String → Option Document
  | .json => Json.read
  | .toml => Toml.read

/-- Extensions count as they are written, in lower case. -/
def ofFile? (file : String) : Option Format :=
  match extension? file with
  | some extension =>
      if extension = "json" then some .json
      else if extension = "toml" then some .toml
      else none
  | none => none

def label : Format → String
  | .json => "<json>"
  | .toml => "<toml>"

end Format

def readTree (format : Format) (file text : String) : Except TokenError Tree :=
  match format.read text with
  | none => .error (.malformed file)
  | some document => Tree.ofDocument document

def readDocument (format : Format) (file text : String) : Except ThemeError Document :=
  match format.read text with
  | none => .error (.malformed file)
  | some document => .ok document

def readTheme (format : Format) (file text : String) : Except ThemeError Theme :=
  match readDocument format file text with
  | .error e => .error e
  | .ok document => Theme.ofDocument document

def readOverrides (format : Format) (file text : String) : Except ThemeError Overrides :=
  match readDocument format file text with
  | .error e => .error e
  | .ok document => Overrides.ofDocument document

end DesignTokens.Build
