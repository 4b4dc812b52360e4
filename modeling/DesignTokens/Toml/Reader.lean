import DesignTokens.Toml.Layout
import DesignTokens.Toml.Number
import DesignTokens.Toml.Text

/-! Reading TOML texts. Arrays, inline tables and keys nest less than eighty deep. -/

namespace DesignTokens.Toml

def maxDepth : Nat := 79

def isBare (c : Char) : Bool := c.isAlphanum || c = '_' || c = '-'

def skipTabs (chars : List Char) : List Char := chars.dropWhile isTab

/-- Blanks, line ends and comments. The flag says that a comment is going on. -/
def skipSpace : Bool → List Char → List Char
  | _, [] => []
  | _, '\n' :: rest => skipSpace false rest
  | _, '\r' :: '\n' :: rest => skipSpace false rest
  | true, c :: rest => if isPlain c then skipSpace true rest else c :: rest
  | false, c :: rest =>
      if c = '#' then skipSpace true rest else if isTab c then skipSpace false rest else c :: rest

def endLine (chars : List Char) : Option (List Char) :=
  let rest := match skipTabs chars with
    | '#' :: rest => rest.dropWhile isPlain
    | rest => rest
  match rest with
  | [] => some []
  | '\n' :: rest => some rest
  | '\r' :: '\n' :: rest => some rest
  | _ => none

def readName (chars : List Char) : Option (String × List Char) :=
  match chars with
  | '"' :: rest => (readEscaped rest).map fun (name, rest) => (String.ofList name, rest)
  | '\'' :: rest => (readLiteral rest).map fun (name, rest) => (String.ofList name, rest)
  | _ =>
      match chars.takeWhile isBare with
      | [] => none
      | name => some (String.ofList name, chars.dropWhile isBare)

def readKey : Nat → List Char → Option (List String × List Char)
  | 0, _ => none
  | bound + 1, chars => do
      let (name, rest) ← readName (skipTabs chars)
      match skipTabs rest with
      | '.' :: rest =>
          let (more, rest) ← readKey bound rest
          some (name :: more, rest)
      | rest => some ([name], rest)

/-- Dates and times are marked by an object of one entry. -/
def momentKey : String := "$__toml_private_datetime"

def readScalar (chars : List Char) : Option (Document × List Char) :=
  match chars with
  | '"' :: _ => (readText chars).map fun (text, rest) => (.text text, rest)
  | '\'' :: _ => (readText chars).map fun (text, rest) => (.text text, rest)
  | 't' :: 'r' :: 'u' :: 'e' :: rest => some (.bool true, rest)
  | 'f' :: 'a' :: 'l' :: 's' :: 'e' :: rest => some (.bool false, rest)
  | _ =>
      match readMoment chars with
      | some (moment, rest) => some (.object [(momentKey, .text moment)], rest)
      | none => readNumber chars

mutual

/--
A value at the start of the input. The first argument bounds the work, the second the nesting.
-/
def readValue : Nat → Nat → List Char → Option (Document × List Char)
  | 0, _, _ => none
  | fuel + 1, depth, chars =>
      match chars with
      | '[' :: rest =>
          if depth = 0 then none
          else (readItems fuel (depth - 1) rest).map fun (items, rest) => (.array items, rest)
      | '\x7b' :: rest =>
          if depth = 0 then none
          else match skipTabs rest with
            | '\x7d' :: rest => some (.object [], rest)
            | rest => do
                let (pairs, rest) ← readPairs fuel (depth - 1) rest
                let table ← inlineTable pairs
                some (table, rest)
      | _ => readScalar chars

/-- The elements of an array up to its end. A comma may follow the last one. -/
def readItems : Nat → Nat → List Char → Option (List Document × List Char)
  | 0, _, _ => none
  | fuel + 1, depth, chars =>
      match skipSpace false chars with
      | ']' :: rest => some ([], rest)
      | rest => do
          let (item, rest) ← readValue fuel depth rest
          match skipSpace false rest with
          | ',' :: rest =>
              let (items, rest) ← readItems fuel depth rest
              some (item :: items, rest)
          | ']' :: rest => some ([item], rest)
          | _ => none

/-- The pairs of an inline table up to its end. No comma may follow the last one. -/
def readPairs : Nat → Nat → List Char → Option (List Pair × List Char)
  | 0, _, _ => none
  | fuel + 1, depth, chars => do
      let (pair, rest) ← readPair fuel depth chars
      match skipTabs rest with
      | ',' :: rest =>
          let (pairs, rest) ← readPairs fuel depth rest
          some (pair :: pairs, rest)
      | '\x7d' :: rest => some ([pair], rest)
      | _ => none

def readPair : Nat → Nat → List Char → Option (Pair × List Char)
  | 0, _, _ => none
  | fuel + 1, depth, chars => do
      let (key, rest) ← readKey maxDepth chars
      match rest with
      | '=' :: rest =>
          let (value, rest) ← readValue fuel depth (skipTabs rest)
          some (⟨key, value⟩, rest)
      | _ => none

end

def readHeader (isElement : Bool) (chars : List Char) : Option (Header × List Char) := do
  let (path, rest) ← readKey maxDepth chars
  match isElement, rest with
  | true, ']' :: ']' :: rest => some (.element path, rest)
  | false, ']' :: rest => some (.table path, rest)
  | _, _ => none

def readLines : Nat → List Char → Option Sheet
  | 0, _ => none
  | fuel + 1, chars =>
      let section? (isElement : Bool) (rest : List Char) : Option Sheet := do
        let (header, rest) ← readHeader isElement rest
        let sheet ← readLines fuel (← endLine rest)
        some ⟨[], ⟨header, sheet.top⟩ :: sheet.sections⟩
      match skipTabs chars with
      | [] => some ⟨[], []⟩
      | '#' :: rest => do readLines fuel (← endLine ('#' :: rest))
      | '\n' :: rest => readLines fuel rest
      | '\r' :: '\n' :: rest => readLines fuel rest
      | '[' :: '[' :: rest => section? true rest
      | '[' :: rest => section? false rest
      | rest => do
          let (pair, rest) ← readPair fuel maxDepth rest
          let sheet ← readLines fuel (← endLine rest)
          some { sheet with top := pair :: sheet.top }

/--
The statements of a text. A mark of the byte order in front is skipped. Every step of the reader
uses up input, so the bound on its work is never met.
-/
def readSheet (text : String) : Option Sheet :=
  let chars := match text.toList with
    | '\ufeff' :: rest => rest
    | chars => chars
  readLines (2 * chars.length + 2) chars

def read (text : String) : Option Document := (readSheet text).bind Sheet.toDocument

end DesignTokens.Toml
