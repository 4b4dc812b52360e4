import DesignTokens.Theme.Base

/-! Catalogues: themes under their own names, in the order in which the names came. -/

namespace DesignTokens.Theme

structure Catalogue where
  themes : Entries Theme

namespace Catalogue

def empty : Catalogue := ⟨[]⟩

/-- A theme of the same name is replaced and its place kept. -/
def register (catalogue : Catalogue) (theme : Theme) : Catalogue :=
  ⟨catalogue.themes.put theme.name theme⟩

def ofBase (base : Base) : Except ThemeError Catalogue × Base :=
  match base.get with
  | (.error e, base) => (.error e, base)
  | (.ok theme, base) => (.ok (empty.register theme), base)

def get (catalogue : Catalogue) (name : String) : Except ThemeError Theme :=
  match catalogue.themes.value? name with
  | some theme => .ok theme
  | none => .error (.themeNotFound name)

def contains (catalogue : Catalogue) (name : String) : Bool :=
  (catalogue.themes.value? name).isSome

def names (catalogue : Catalogue) : List String := Entries.names catalogue.themes

def sortedNames (catalogue : Catalogue) : List String :=
  catalogue.names.mergeSort fun a b => decide (a ≤ b)

def size (catalogue : Catalogue) : Nat := catalogue.themes.length

def isEmpty (catalogue : Catalogue) : Bool := catalogue.themes.isEmpty

def remove (catalogue : Catalogue) (name : String) : Option Theme × Catalogue :=
  (catalogue.themes.value? name, ⟨catalogue.themes.remove name⟩)

/-- The theme that overrides make of one in the catalogue; the given name wins over that of the
overrides. -/
def derived (catalogue : Catalogue) (source name : String) (overrides : Overrides) :
    Except ThemeError Theme :=
  match catalogue.get source with
  | .error e => .error e
  | .ok theme =>
      match theme.derive (overrides.set "name" (.text name)) with
      | .error e => .error e
      | .ok draft => draft.toTheme

def derive (catalogue : Catalogue) (source name : String) (overrides : Overrides) :
    Except ThemeError Theme × Catalogue :=
  match catalogue.derived source name overrides with
  | .error e => (.error e, catalogue)
  | .ok theme => (.ok theme, catalogue.register theme)

end Catalogue

end DesignTokens.Theme
