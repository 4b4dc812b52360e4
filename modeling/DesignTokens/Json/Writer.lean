import DesignTokens.Document.Basic
import DesignTokens.Number.Decimal
import DesignTokens.Text.Quoted

/-! JSON texts of documents: on one line, or indented by two spaces a level. -/

namespace DesignTokens.Json

def signed (negative : Bool) (chars : List Char) : List Char :=
  if negative then '-' :: chars else chars

def integerChars (z : Int) : List Char := signed (z < 0) (Decimal.digitChars z.natAbs)

/--
The shortest digits that read back, an even last digit where two are equally near. Magnitudes from
`10 ^ (-5)` to below `10 ^ 16` are written out and have a point, others have an exponent.
-/
def binaryChars (x : Binary64) : List Char :=
  if x.isZero then signed x.negative ['0', '.', '0']
  else
    let decimal := Decimal.shortest .even x
    let leading := decimal.places - 1
    let body :=
      if leading < -5 ∨ 15 < leading then decimal.scientific
      else if 0 ≤ decimal.exponent then decimal.plain ++ ['.', '0']
      else decimal.plain
    signed x.negative body

def numberText : Number → String
  | .integer z => String.ofList (integerChars z)
  | .binary x => if x.isFinite then String.ofList (binaryChars x) else "null"

/-- Controls without a letter of their own are written with four hexadecimal digits. -/
def escape : Char → List Char
  | '"' => ['\\', '"']
  | '\\' => ['\\', '\\']
  | '\x08' => ['\\', 'b']
  | '\x0c' => ['\\', 'f']
  | '\n' => ['\\', 'n']
  | '\r' => ['\\', 'r']
  | '\t' => ['\\', 't']
  | c =>
      if c.toNat < 0x10 then ['\\', 'u', '0', '0', '0'] ++ Text.hexChars c.toNat
      else if c.toNat < 0x20 then ['\\', 'u', '0', '0'] ++ Text.hexChars c.toNat
      else [c]

def quote (text : String) : String :=
  String.ofList ('"' :: (text.toList.flatMap escape ++ ['"']))

def boolText (value : Bool) : String := if value then "true" else "false"

mutual

def write : Document → String
  | .null => "null"
  | .bool value => boolText value
  | .number n => numberText n
  | .text s => quote s
  | .array items => "[" ++ writeItems items ++ "]"
  | .object entries => "\x7b" ++ writeEntries entries ++ "\x7d"

def writeItems : List Document → String
  | [] => ""
  | [item] => write item
  | item :: next :: rest => write item ++ "," ++ writeItems (next :: rest)

def writeEntries : List (String × Document) → String
  | [] => ""
  | [(name, value)] => quote name ++ ":" ++ write value
  | (name, value) :: next :: rest =>
      quote name ++ ":" ++ write value ++ "," ++ writeEntries (next :: rest)

end

def newline (level : Nat) : String := "\n" ++ String.ofList (List.replicate (2 * level) ' ')

mutual

def writeIndented (level : Nat) : Document → String
  | .array (item :: items) =>
      "[" ++ indentItems (level + 1) (item :: items) ++ newline level ++ "]"
  | .object (entry :: entries) =>
      "\x7b" ++ indentEntries (level + 1) (entry :: entries) ++ newline level ++ "\x7d"
  | .array [] => "[]"
  | .object [] => "\x7b\x7d"
  | .null => "null"
  | .bool value => boolText value
  | .number n => numberText n
  | .text s => quote s

def indentItems (level : Nat) : List Document → String
  | [] => ""
  | [item] => newline level ++ writeIndented level item
  | item :: next :: rest =>
      newline level ++ writeIndented level item ++ "," ++ indentItems level (next :: rest)

def indentEntries (level : Nat) : List (String × Document) → String
  | [] => ""
  | [(name, value)] => newline level ++ quote name ++ ": " ++ writeIndented level value
  | (name, value) :: next :: rest =>
      newline level ++ quote name ++ ": " ++ writeIndented level value ++ "," ++
        indentEntries level (next :: rest)

end

end DesignTokens.Json
