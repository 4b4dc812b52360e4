import DesignTokens.Document.Edit
import DesignTokens.Theme.Basic

/-! Overrides: the part of a theme that a derived theme changes. -/

namespace DesignTokens.Theme

structure Overrides where
  root : Entries Document

namespace Overrides

def empty : Overrides := ⟨[]⟩

def ofDocument : Document → Except ThemeError Overrides
  | .object root => .ok ⟨root⟩
  | found => .error (.shape (.overridesNotObject found))

def ofTheme (theme : Theme) : Except ThemeError Overrides := ofDocument theme.toDocument

def toDocument (overrides : Overrides) : Document := .object overrides.root

def set (overrides : Overrides) (path : String) (value : Document) : Overrides :=
  ⟨Document.set value (Text.split '.' path) overrides.root⟩

def name? (overrides : Overrides) : Option String :=
  (overrides.root.value? "name").bind Document.text?

def isEmpty (overrides : Overrides) : Bool := overrides.root.isEmpty

end Overrides

end DesignTokens.Theme
