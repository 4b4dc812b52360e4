import DesignTokens.Document.Basic

/-!
The statements of a TOML text. A text is a run of pairs, and then sections that open with a header
and go on with pairs of their own.
-/

namespace DesignTokens.Toml

/-- A value under a key of one or more names. -/
structure Pair where
  key : List String
  value : Document

inductive Header where
  | table (path : List String)
  | element (path : List String)

structure Section where
  header : Header
  pairs : List Pair

structure Sheet where
  top : List Pair
  sections : List Section

end DesignTokens.Toml
