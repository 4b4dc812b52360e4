import DesignTokens.Text.Split

/-! Dot paths into a token tree, and the braces that make a text an alias for one. -/

namespace DesignTokens.Token

structure Path where
  segments : List String
  deriving DecidableEq

def aliasOpen : Char := '\x7b'

def aliasClose : Char := '\x7d'

/-- What stands between the braces, if they are the first and the last character. -/
def aliasTarget? (text : String) : Option String :=
  match text.toList with
  | [] => none
  | first :: rest =>
      if first = aliasOpen ∧ rest.getLast? = some aliasClose then some (String.ofList rest.dropLast)
      else none

def isAlias (text : String) : Bool := (aliasTarget? text).isSome

namespace Path

/-- Only the dot separates segments; they may hold blanks and may be empty. -/
def ofText (text : String) : Path := ⟨Text.split '.' text⟩

def text (path : Path) : String := Text.join '.' path.segments

def toAlias (path : Path) : String :=
  String.ofList (aliasOpen :: (path.text.toList ++ [aliasClose]))

def ofAlias? (text : String) : Option Path := (aliasTarget? text).map ofText

end Path

end DesignTokens.Token
