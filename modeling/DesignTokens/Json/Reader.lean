import DesignTokens.Json.Number

/-!
Strict reading of JSON texts. A repeated name keeps its first place and its last value, and arrays
and objects may be nested 127 deep.
-/

namespace DesignTokens.Json

def isBlank (c : Char) : Bool := c = ' ' || c = '\t' || c = '\n' || c = '\r'

def skipBlanks (chars : List Char) : List Char := chars.dropWhile isBlank

def hexDigit? (c : Char) : Option Nat :=
  if c.isDigit then some (c.toNat - '0'.toNat)
  else if 'a' ≤ c ∧ c ≤ 'f' then some (c.toNat - 'a'.toNat + 10)
  else if 'A' ≤ c ∧ c ≤ 'F' then some (c.toNat - 'A'.toNat + 10)
  else none

def hexNumber? (chars : List Char) : Option Nat :=
  chars.foldlM (fun n c => (hexDigit? c).map (16 * n + ·)) 0

def unescape? : Char → Option Char
  | '"' => some '"'
  | '\\' => some '\\'
  | '/' => some '/'
  | 'b' => some '\x08'
  | 'f' => some '\x0c'
  | 'n' => some '\n'
  | 'r' => some '\r'
  | 't' => some '\t'
  | _ => none

/-- What a quoted text is made of: characters, and 16-bit units given by number. -/
inductive Piece where
  | char (c : Char)
  | unit (n : Nat)

def readPieces : List Char → Option (List Piece × List Char)
  | [] => none
  | '"' :: rest => some ([], rest)
  | '\\' :: 'u' :: a :: b :: c :: d :: rest => do
      let n ← hexNumber? [a, b, c, d]
      let (pieces, rest) ← readPieces rest
      some (.unit n :: pieces, rest)
  | '\\' :: letter :: rest => do
      let c ← unescape? letter
      let (pieces, rest) ← readPieces rest
      some (.char c :: pieces, rest)
  | c :: rest =>
      if c.toNat < 0x20 then none
      else do
        let (pieces, rest) ← readPieces rest
        some (.char c :: pieces, rest)

def isHighUnit (n : Nat) : Bool := 0xD800 ≤ n && n < 0xDC00

def isLowUnit (n : Nat) : Bool := 0xDC00 ≤ n && n < 0xE000

/-- Units that form pairs become one character. A unit of a pair without its partner is refused. -/
def joinPieces : Option Nat → List Piece → Option (List Char)
  | none, [] => some []
  | none, .char c :: rest => (joinPieces none rest).map (c :: ·)
  | none, .unit n :: rest =>
      if isHighUnit n then joinPieces (some n) rest
      else if isLowUnit n then none
      else (joinPieces none rest).map (Char.ofNat n :: ·)
  | some high, .unit low :: rest =>
      if isLowUnit low then
        let code := 0x10000 + (high - 0xD800) * 0x400 + (low - 0xDC00)
        (joinPieces none rest).map (Char.ofNat code :: ·)
      else none
  | some _, _ => none

def readText (chars : List Char) : Option (String × List Char) := do
  let (pieces, rest) ← readPieces chars
  let text ← joinPieces none pieces
  some (String.ofList text, rest)

def readName (chars : List Char) : Option (String × List Char) := do
  match skipBlanks chars with
  | '"' :: rest =>
      let (name, rest) ← readText rest
      match skipBlanks rest with
      | ':' :: rest => some (name, rest)
      | _ => none
  | _ => none

mutual

/--
A value at the start of the input. The first argument bounds the work, the second the nesting.
-/
def readValue : Nat → Nat → List Char → Option (Document × List Char)
  | 0, _, _ => none
  | fuel + 1, depth, chars =>
      match skipBlanks chars with
      | 'n' :: 'u' :: 'l' :: 'l' :: rest => some (.null, rest)
      | 't' :: 'r' :: 'u' :: 'e' :: rest => some (.bool true, rest)
      | 'f' :: 'a' :: 'l' :: 's' :: 'e' :: rest => some (.bool false, rest)
      | '"' :: rest => (readText rest).map fun (text, rest) => (.text text, rest)
      | '[' :: rest =>
          if depth = 0 then none
          else match skipBlanks rest with
            | ']' :: rest => some (.array [], rest)
            | rest =>
                (readItems fuel (depth - 1) rest).map fun (items, rest) => (.array items, rest)
      | '\x7b' :: rest =>
          if depth = 0 then none
          else match skipBlanks rest with
            | '\x7d' :: rest => some (.object [], rest)
            | rest =>
                (readEntries fuel (depth - 1) rest).map fun (pairs, rest) =>
                  (.object (Entries.collect pairs), rest)
      | rest => (readNumber rest).map fun (n, rest) => (.number n, rest)

def readItems : Nat → Nat → List Char → Option (List Document × List Char)
  | 0, _, _ => none
  | fuel + 1, depth, chars => do
      let (item, rest) ← readValue fuel depth chars
      match skipBlanks rest with
      | ',' :: rest =>
          let (items, rest) ← readItems fuel depth rest
          some (item :: items, rest)
      | ']' :: rest => some ([item], rest)
      | _ => none

def readEntries : Nat → Nat → List Char → Option (List (String × Document) × List Char)
  | 0, _, _ => none
  | fuel + 1, depth, chars => do
      let (name, rest) ← readName chars
      let (value, rest) ← readValue fuel depth rest
      match skipBlanks rest with
      | ',' :: rest =>
          let (pairs, rest) ← readEntries fuel depth rest
          some ((name, value) :: pairs, rest)
      | '\x7d' :: rest => some ([(name, value)], rest)
      | _ => none

end

def maxDepth : Nat := 127

/--
The document that a whole text holds. Every step of the reader uses up input, so the bound on its
work is never met.
-/
def read (text : String) : Option Document := do
  let chars := text.toList
  let (document, rest) ← readValue (2 * chars.length + 2) maxDepth chars
  if skipBlanks rest = [] then some document else none

end DesignTokens.Json
