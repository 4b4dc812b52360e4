import DesignTokens.Text.Quoted

/-! Which of the four quoted forms a text takes when it is written, and how keys are written. -/

namespace DesignTokens.Toml

/-- Tabs and line ends count as harmless. -/
def isControl (c : Char) : Bool := (c.toNat < 0x20 && c ≠ '\t' && c ≠ '\n') || c.toNat = 0x7f

def longestRun (c : Char) : Nat → List Char → Nat
  | current, [] => current
  | current, first :: rest =>
      if first = c then longestRun c (current + 1) rest else max current (longestRun c 0 rest)

def upperHex (n : Nat) : List Char := (Text.hexChars n).map Char.toUpper

def escape : Char → List Char
  | '\x08' => ['\\', 'b']
  | '\t' => ['\\', 't']
  | '\n' => ['\\', 'n']
  | '\x0c' => ['\\', 'f']
  | '\r' => ['\\', 'r']
  | '"' => ['\\', '"']
  | '\\' => ['\\', '\\']
  | c =>
      if isControl c then
        let digits := upperHex c.toNat
        ['\\', 'u'] ++ List.replicate (4 - digits.length) '0' ++ digits
      else [c]

/-- The body of an escaped text over several lines: of quotes in a row every third is escaped. -/
def escapeLines : Nat → List Char → List Char
  | _, [] => []
  | quotes, '"' :: rest =>
      if quotes = 2 then '\\' :: '"' :: escapeLines 0 rest else '"' :: escapeLines (quotes + 1) rest
  | _, '\n' :: rest => '\n' :: escapeLines 0 rest
  | _, c :: rest => escape c ++ escapeLines 0 rest

def enclose (quotes body : List Char) : String := String.ofList (quotes ++ body ++ quotes)

def encloseLines (quotes text body : List Char) : String :=
  if '\n' ∈ text then String.ofList (quotes ++ '\n' :: body ++ quotes) else enclose quotes body

/-- The first form that needs no escapes, and the escaped ones behind them. -/
def quote (text : String) : String :=
  let chars := text.toList
  let controls := chars.any isControl
  let lines := decide ('\n' ∈ chars)
  if !controls ∧ '\\' ∉ chars ∧ '"' ∉ chars ∧ !lines then enclose ['"'] (chars.flatMap escape)
  else if !controls ∧ '\'' ∉ chars ∧ !lines then enclose ['\''] chars
  else if !controls ∧ '\\' ∉ chars ∧ longestRun '"' 0 chars ≤ 2 then
    encloseLines ['"', '"', '"'] chars (escapeLines 0 chars)
  else if !controls ∧ longestRun '\'' 0 chars ≤ 2 then
    encloseLines ['\'', '\'', '\''] chars chars
  else if lines then encloseLines ['"', '"', '"'] chars (escapeLines 0 chars)
  else enclose ['"'] (chars.flatMap escape)

def isBareName (chars : List Char) : Bool :=
  !chars.isEmpty && chars.all fun c => c.isAlphanum || c = '_' || c = '-'

def quoteName (name : String) : String :=
  let chars := name.toList
  let lines := decide ('\n' ∈ chars)
  let controls := chars.any isControl || lines
  if isBareName chars then name
  else if !controls ∧ '\\' ∉ chars ∧ '"' ∉ chars then enclose ['"'] (chars.flatMap escape)
  else if !controls ∧ '\'' ∉ chars then enclose ['\''] chars
  else enclose ['"'] (chars.flatMap escape)

end DesignTokens.Toml
