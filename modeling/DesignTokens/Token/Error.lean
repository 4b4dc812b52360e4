import DesignTokens.Json.Writer

/-! Why a token tree cannot be loaded or a token cannot be resolved. -/

namespace DesignTokens.Token

inductive TokenError where
  /-- The first segment of a reference that leads nowhere. -/
  | pathNotFound (reference segment : String)
  | noValue (path : String)
  /-- The paths in the order of the visit; the last one closes the cycle. -/
  | cyclic (chain : List String)
  | unsupportedValue (path : String) (found : Document)
  | invalidRoot (found : Document)
  | unreadable (file : String)
  | malformed (file : String)
  | unknownFormat (file : String)

/-- Stands in a message for what the disk or a reader says about its own failure. -/
def details : String := "<details>"

namespace TokenError

def message : TokenError → String
  | pathNotFound reference segment =>
      "Cannot resolve token reference " ++ reference ++ " (failed at \"" ++ segment ++ "\")"
  | noValue path => "Token at \"" ++ path ++ "\" has no $value"
  | cyclic chain => "Cyclic token reference: " ++ String.intercalate " -> " chain
  | unsupportedValue path found =>
      "Unexpected token value at \"" ++ path ++ "\": " ++ Json.write found
  | invalidRoot found => "Token tree root must be an object, found " ++ Json.write found
  | unreadable file => "Failed to read token file " ++ Text.quote file ++ ": " ++ details
  | malformed file => "Failed to parse token file " ++ Text.quote file ++ ": " ++ details
  | unknownFormat file =>
      "Unsupported token file format: " ++ Text.quote file ++ " (use .json or .toml)"

end TokenError

end DesignTokens.Token
