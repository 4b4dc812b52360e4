import DesignTokens.Document.Basic

/-! Writing one value at a path of names. -/

namespace DesignTokens.Document

/-- What is not an object counts as an object without entries. -/
def entriesOrNone (document : Option Document) : Entries Document :=
  (document.bind entries?).getD []

/--
Sets the value at a path. Objects on the way are made as needed, and a leaf in the way gives way.
-/
def set (value : Document) : List String → Entries Document → Entries Document
  | [], entries => entries
  | [name], entries => entries.put name value
  | name :: next :: rest, entries =>
      entries.put name (.object (set value (next :: rest) (entriesOrNone (entries.value? name))))

/-- Like `set`, but a leaf in the way stays and nothing is written. -/
def insert? (value : Document) : List String → Entries Document → Option (Entries Document)
  | [], entries => some entries
  | [name], entries => some (entries.put name value)
  | name :: next :: rest, entries => do
      let inner ← match entries.value? name with
        | none => some []
        | some (.object inner) => some inner
        | some _ => none
      let inner ← insert? value (next :: rest) inner
      some (entries.put name (.object inner))

end DesignTokens.Document
