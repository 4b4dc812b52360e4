import DesignTokens.Text.Hidden

/-! Texts and file names as messages quote them. -/

namespace DesignTokens.Text

def hexChars (n : Nat) : List Char := Nat.toDigits 16 n

/-- A character inside quotes. Hidden characters are shown by their code. -/
def quoteChar : Char → List Char
  | '"' => ['\\', '"']
  | '\\' => ['\\', '\\']
  | '\n' => ['\\', 'n']
  | '\r' => ['\\', 'r']
  | '\t' => ['\\', 't']
  | '\x00' => ['\\', '0']
  | c => if isHidden c then ['\\', 'u', '\x7b'] ++ hexChars c.toNat ++ ['\x7d'] else [c]

def quote (text : String) : String :=
  String.ofList ('"' :: (text.toList.flatMap quoteChar ++ ['"']))

end DesignTokens.Text
