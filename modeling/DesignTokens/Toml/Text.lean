import DesignTokens.Json.Reader

/-! Quoted texts of TOML: escaped or literal, on one line or on several. -/

namespace DesignTokens.Toml

/-- What may stand in a text or a comment: no controls other than the tab. -/
def isPlain (c : Char) : Bool := c = '\t' || (0x20 ≤ c.toNat && c.toNat ≠ 0x7f)

def isTab (c : Char) : Bool := c = ' ' || c = '\t'

def unescape? : Char → Option Char
  | '"' => some '"'
  | '\\' => some '\\'
  | 'b' => some '\x08'
  | 'f' => some '\x0c'
  | 'n' => some '\n'
  | 'r' => some '\r'
  | 't' => some '\t'
  | _ => none

def codedChar? (digits : List Char) : Option Char := do
  let n ← Json.hexNumber? digits
  if n.isValidChar then some (Char.ofNat n) else none

def prepend (c : Char) : Option (List Char × List Char) → Option (List Char × List Char) :=
  Option.map fun (text, rest) => (c :: text, rest)

def readEscaped : List Char → Option (List Char × List Char)
  | [] => none
  | '"' :: rest => some ([], rest)
  | '\\' :: 'u' :: a :: b :: c :: d :: rest =>
      (codedChar? [a, b, c, d]).bind fun char => prepend char (readEscaped rest)
  | '\\' :: 'U' :: a :: b :: c :: d :: e :: f :: g :: h :: rest =>
      (codedChar? [a, b, c, d, e, f, g, h]).bind fun char => prepend char (readEscaped rest)
  | '\\' :: letter :: rest => (unescape? letter).bind fun char => prepend char (readEscaped rest)
  | c :: rest => if isPlain c then prepend c (readEscaped rest) else none

def readLiteral : List Char → Option (List Char × List Char)
  | [] => none
  | '\'' :: rest => some ([], rest)
  | c :: rest => if isPlain c then prepend c (readLiteral rest) else none

def lineIsOver (chars : List Char) : Bool :=
  match chars.dropWhile isTab with
  | '\n' :: _ => true
  | '\r' :: '\n' :: _ => true
  | _ => false

/--
An escaped text over several lines, after its opening quotes. A backslash at the end of a line
drops the blanks and line ends that follow, which the flag says is going on. Up to two quotes may
stand before the closing three.
-/
def readEscapedLines : Bool → List Char → Option (List Char × List Char)
  | _, [] => none
  | _, '"' :: '"' :: '"' :: '"' :: '"' :: rest => some (['"', '"'], rest)
  | _, '"' :: '"' :: '"' :: '"' :: rest => some (['"'], rest)
  | _, '"' :: '"' :: '"' :: rest => some ([], rest)
  | _, '\\' :: 'u' :: a :: b :: c :: d :: rest =>
      (codedChar? [a, b, c, d]).bind fun char => prepend char (readEscapedLines false rest)
  | _, '\\' :: 'U' :: a :: b :: c :: d :: e :: f :: g :: h :: rest =>
      (codedChar? [a, b, c, d, e, f, g, h]).bind fun char =>
        prepend char (readEscapedLines false rest)
  | _, '\\' :: letter :: rest =>
      match unescape? letter with
      | some char => prepend char (readEscapedLines false rest)
      | none => if lineIsOver (letter :: rest) then readEscapedLines true rest else none
  | dropping, '\r' :: '\n' :: rest =>
      if dropping then readEscapedLines true rest else prepend '\n' (readEscapedLines false rest)
  | dropping, c :: rest =>
      if dropping ∧ (isTab c ∨ c = '\n') then readEscapedLines true rest
      else if c = '\n' ∨ isPlain c then prepend c (readEscapedLines false rest)
      else none

def readLiteralLines : List Char → Option (List Char × List Char)
  | [] => none
  | '\'' :: '\'' :: '\'' :: '\'' :: '\'' :: rest => some (['\'', '\''], rest)
  | '\'' :: '\'' :: '\'' :: '\'' :: rest => some (['\''], rest)
  | '\'' :: '\'' :: '\'' :: rest => some ([], rest)
  | '\r' :: '\n' :: rest => prepend '\n' (readLiteralLines rest)
  | c :: rest => if c = '\n' ∨ isPlain c then prepend c (readLiteralLines rest) else none

/-- A line end right behind the opening quotes is no part of the text. -/
def dropLineEnd : List Char → List Char
  | '\n' :: rest => rest
  | '\r' :: '\n' :: rest => rest
  | chars => chars

def readText (chars : List Char) : Option (String × List Char) :=
  let found := match chars with
    | '"' :: '"' :: '"' :: rest => readEscapedLines false (dropLineEnd rest)
    | '"' :: rest => readEscaped rest
    | '\'' :: '\'' :: '\'' :: rest => readLiteralLines (dropLineEnd rest)
    | '\'' :: rest => readLiteral rest
    | _ => none
  found.map fun (text, rest) => (String.ofList text, rest)

end DesignTokens.Toml
