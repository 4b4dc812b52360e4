import DesignTokens.Document.Merge
import DesignTokens.Theme.Overrides

/-!
Drafts: what overrides make of a theme. A draft may have any shape, as long as it holds no alias;
reading it against the schema makes a theme of it again.
-/

namespace DesignTokens.Theme

structure Draft where
  document : Document

namespace Draft

def ofDocument (document : Document) : Except ThemeError Draft :=
  match checkResolved document with
  | .error e => .error e
  | .ok () => .ok ⟨document⟩

def get? (draft : Draft) (path : String) : Option Document :=
  draft.document.at? (Text.split '.' path)

def number? (draft : Draft) (path : String) : Option Binary64 :=
  ((draft.get? path).bind Document.number?).map Number.toBinary64

def text? (draft : Draft) (path : String) : Option String :=
  (draft.get? path).bind Document.text?

def name? (draft : Draft) : Option String := draft.text? "name"

def toTheme (draft : Draft) : Except ThemeError Theme := Theme.ofDocument draft.document

end Draft

/-- Changes a theme. Only an alias among the overrides is refused. -/
def derive (theme : Theme) (overrides : Overrides) : Except ThemeError Draft :=
  Draft.ofDocument (theme.toDocument.merge overrides.toDocument)

end DesignTokens.Theme
