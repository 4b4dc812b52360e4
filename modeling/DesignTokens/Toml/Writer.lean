import DesignTokens.Json.Writer
import DesignTokens.Toml.Quoting
import DesignTokens.Toml.Section

/-!
Writing documents as TOML. In each table the plain values come first and the tables below it after
them; arrays of more than one element take a line for each.
-/

namespace DesignTokens.Toml

inductive WriteError where
  | null
  | tooLarge

mutual

/-- The first value, in the order of the document, that has no form in TOML. -/
def fault? : Document → Option WriteError
  | .null => some .null
  | .number (.integer z) => if (Number.signedLimit : Int) ≤ z then some .tooLarge else none
  | .array items => faultIn? items
  | .object entries => faultInEntries? entries
  | _ => none

def faultIn? : List Document → Option WriteError
  | [] => none
  | item :: rest => (fault? item).or (faultIn? rest)

def faultInEntries? : List (String × Document) → Option WriteError
  | [] => none
  | (_, value) :: rest => (fault? value).or (faultInEntries? rest)

end

/-- All digits and never an exponent; of two equally near decimals the upper one. -/
def binaryText (x : Binary64) : String :=
  if x.isZero then String.ofList (Json.signed x.negative ['0', '.', '0'])
  else
    let decimal := Decimal.shortest .up x
    let point := if 0 ≤ decimal.exponent then ['.', '0'] else []
    String.ofList (Json.signed x.negative (decimal.plain ++ point))

def numberText : Number → String
  | .integer z => String.ofList (Json.integerChars z)
  | .binary x => binaryText x

mutual

def write : Document → String
  | .null => ""
  | .bool value => Json.boolText value
  | .number n => numberText n
  | .text s => quote s
  | .array [] => "[]"
  | .array [item] => "[" ++ write item ++ "]"
  | .array (item :: next :: rest) => "[\n" ++ writeItems (item :: next :: rest) ++ "]"
  | .object [] => "\x7b\x7d"
  | .object (entry :: rest) => "\x7b " ++ writeEntries (entry :: rest) ++ " \x7d"

def writeItems : List Document → String
  | [] => ""
  | item :: rest => "    " ++ write item ++ ",\n" ++ writeItems rest

def writeEntries : List (String × Document) → String
  | [] => ""
  | [(name, value)] => quoteName name ++ " = " ++ write value
  | (name, value) :: next :: rest =>
      quoteName name ++ " = " ++ write value ++ ", " ++ writeEntries (next :: rest)

end

def isObject : Document → Bool
  | .object _ => true
  | _ => false

/-- Values written as sections: objects, and arrays of nothing but objects. -/
def isSection : Document → Bool
  | .object _ => true
  | .array items => !items.isEmpty && items.all isObject
  | _ => false

def plainPairs : List (String × Document) → List Pair
  | [] => []
  | (name, value) :: rest =>
      if isSection value then plainPairs rest else ⟨[name], value⟩ :: plainPairs rest

mutual

/-- The sections that a value at a path brings. A table that only holds tables needs no header. -/
def sectionsAt (path : List String) : Document → List Section
  | .object entries =>
      let below := sectionsBelow path entries
      match entries, plainPairs entries with
      | _ :: _, [] => below
      | _, pairs => ⟨.table path, pairs⟩ :: below
  | .array items => if items.all isObject then elementsAt path items else []
  | _ => []

def sectionsBelow (path : List String) : List (String × Document) → List Section
  | [] => []
  | (name, value) :: rest => sectionsAt (path ++ [name]) value ++ sectionsBelow path rest

def elementsAt (path : List String) : List Document → List Section
  | [] => []
  | .object entries :: rest =>
      ⟨.element path, plainPairs entries⟩ :: (sectionsBelow path entries ++ elementsAt path rest)
  | _ :: rest => elementsAt path rest

end

def Sheet.ofEntries (entries : Entries Document) : Sheet :=
  ⟨plainPairs entries, sectionsBelow [] entries⟩

def keyText (names : List String) : String := String.intercalate "." (names.map quoteName)

def pairText (pair : Pair) : String := keyText pair.key ++ " = " ++ write pair.value ++ "\n"

def headerText : Header → String
  | .table path => "[" ++ keyText path ++ "]\n"
  | .element path => "[[" ++ keyText path ++ "]]\n"

def sectionText (part : Section) : String :=
  headerText part.header ++ String.join (part.pairs.map pairText)

/-- A blank line stands before every header but one that opens the text. -/
def Sheet.text (sheet : Sheet) : String :=
  let top := sheet.top.map pairText
  let sections := sheet.sections.map sectionText
  String.intercalate "\n" (if top.isEmpty then sections else String.join top :: sections)

def render (entries : Entries Document) : Except WriteError String :=
  match fault? (.object entries) with
  | some fault => .error fault
  | none => .ok (Sheet.ofEntries entries).text

end DesignTokens.Toml
