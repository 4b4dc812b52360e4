import DesignTokens.Token.Error
import DesignTokens.Token.Value

/-! What can go wrong with themes: in assembling, reading, deriving and writing them. -/

namespace DesignTokens.Theme

open Token

inductive Schema where
  | text
  | number
  | record (name : String) (fields : List (String × Schema))

inductive ShapeError where
  | missingField (name : String)
  | mistyped (found : Document) (expected : Schema)
  | nestedUnderLeaf (field : String)
  | overridesNotObject (found : Document)

inductive ThemeError where
  | token (cause : TokenError)
  | typeMismatch (field path : String) (expected found : Kind)
  | unresolvedDependency (field dependency : String)
  | unresolvedAlias (field value : String)
  | shape (cause : ShapeError)
  | themeNotFound (name : String)
  | baseAlreadyInitialized
  | unreadable (file : String)
  | unwritable (file : String)
  | malformed (file : String)
  | unknownFormat (file : String)
  /-- A `null` has no written form. -/
  | unwritableNull
  /-- An integer above the signed 64-bit range has no written form. -/
  | unwritableInteger

def Schema.describe : Schema → String
  | .text => "a string"
  | .number => "f64"
  | .record name _ => "struct " ++ name

def describeFound : Document → String
  | .null => "null"
  | .bool value => "boolean `" ++ Json.boolText value ++ "`"
  | .number (.integer z) => "integer `" ++ Json.numberText (.integer z) ++ "`"
  | .number (.binary x) => "floating point `" ++ Json.numberText (.binary x) ++ "`"
  | .text s => "string " ++ Text.quote s
  | .array _ => "sequence"
  | .object _ => "map"

def ShapeError.message : ShapeError → String
  | missingField name => "missing field `" ++ name ++ "`"
  | mistyped found expected =>
      "invalid type: " ++ describeFound found ++ ", expected " ++ expected.describe
  | nestedUnderLeaf field => "field '" ++ field ++ "' is nested under a leaf"
  | overridesNotObject found => "overrides must be an object, found " ++ Json.write found

def ThemeError.message : ThemeError → String
  | token cause => cause.message
  | typeMismatch field path expected found =>
      "Field '" ++ field ++ "' expects a " ++ expected.name ++ " but token \"" ++ path ++
        "\" resolved to a " ++ found.name
  | unresolvedDependency field dependency =>
      "Field '" ++ field ++ "' depends on '" ++ dependency ++
        "', which is not resolved at that point"
  | unresolvedAlias field value =>
      "Field '" ++ field ++ "' holds an unresolved token reference: " ++ value
  | shape cause => "Invalid theme shape: " ++ cause.message
  | themeNotFound name => "Theme '" ++ name ++ "' not found"
  | baseAlreadyInitialized => "The base theme is already initialized"
  | unreadable file => "Failed to read " ++ Text.quote file ++ ": " ++ Token.details
  | unwritable file => "Failed to write " ++ Text.quote file ++ ": " ++ Token.details
  | malformed file => "Failed to parse " ++ Text.quote file ++ ": " ++ Token.details
  | unknownFormat file =>
      "Unsupported file format: " ++ Text.quote file ++ " (use .json or .toml)"
  | unwritableNull => "Serialization error: unsupported unit type"
  | unwritableInteger => "Serialization error: out-of-range value for u64 type"

end DesignTokens.Theme
