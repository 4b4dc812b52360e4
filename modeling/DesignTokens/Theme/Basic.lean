import DesignTokens.Number.Decimal
import DesignTokens.Theme.Component
import DesignTokens.Theme.Record
import DesignTokens.Theme.Semantic
import DesignTokens.Theme.Table
import DesignTokens.Token.Path

/-! Themes: a name, a tier of design decisions and a tier of components, all of it resolved. -/

namespace DesignTokens

structure Theme where
  root : Theme.Part

namespace Theme

def schema : Schema := .record "Theme" [
  ("name", .text), ("semantic", Semantic.semantic), ("component", Component.component)]

def fields : List Field := Table.rows

def field? (name : String) : Option Field := fields.find? fun field => field.name = name

mutual

/-- One trail of names serves the whole search. A failure leaves it where the alias stands. -/
def findAlias (trail : List String) : Document → Except ThemeError Unit × List String
  | .text s =>
      if Token.isAlias s then (.error (.unresolvedAlias (Text.join '.' trail) s), trail)
      else (.ok (), trail)
  | .array items => findAliasFrom trail 0 items
  | .object entries => findAliasIn trail entries
  | _ => (.ok (), trail)

def findAliasFrom (trail : List String) (index : Nat) :
    List Document → Except ThemeError Unit × List String
  | [] => (.ok (), trail)
  | item :: rest =>
      match findAlias (trail ++ [String.ofList (Decimal.digitChars index)]) item with
      | (.ok (), trail) => findAliasFrom trail.dropLast (index + 1) rest
      | failed => failed

def findAliasIn (trail : List String) :
    List (String × Document) → Except ThemeError Unit × List String
  | [] => (.ok (), trail)
  | (name, value) :: rest =>
      match findAlias (trail ++ [name]) value with
      | (.ok (), trail) => findAliasIn trail.dropLast rest
      | failed => failed

end

def checkResolved (document : Document) : Except ThemeError Unit := (findAlias [] document).1

def ofDocument (document : Document) : Except ThemeError Theme :=
  match checkResolved document with
  | .error e => .error e
  | .ok () =>
      match schema.read document with
      | .error e => .error (.shape e)
      | .ok root => .ok ⟨root⟩

/-- The value form: fields in the order of the schema, and whole numbers as integers. -/
def toDocument (theme : Theme) : Document := theme.root.toDocument.compact

def name (theme : Theme) : String := ((theme.root.field? "name").bind Part.text?).getD ""

def same (theme other : Theme) : Bool := theme.root.same other.root

end Theme

end DesignTokens
