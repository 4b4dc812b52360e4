import DesignTokens.Document.Basic

/-!
Merging one document onto another. Objects merge name by name, anything else replaces what was
there, and `null` stands for "keep".
-/

namespace DesignTokens.Document

mutual

/-- Objects lose their `null` entries, down through objects; arrays are kept as they are. -/
def withoutNulls : Document → Document
  | .object entries => .object (withoutNullEntries entries)
  | other => other

def withoutNullEntries : List (String × Document) → List (String × Document)
  | [] => []
  | (_, .null) :: rest => withoutNullEntries rest
  | (name, value) :: rest => (name, withoutNulls value) :: withoutNullEntries rest

end

mutual

def merge : Document → Document → Document
  | .object base, .object changes => .object (mergeEntries base changes)
  | base, .null => base
  | _, replacement => withoutNulls replacement

/-- Known names keep their place; new ones follow in their own order. -/
def mergeEntries : List (String × Document) → List (String × Document) → List (String × Document)
  | base, [] => base
  | base, (_, .null) :: rest => mergeEntries base rest
  | base, (name, value) :: rest =>
      let next := match Entries.value? name base with
        | some existing => merge existing value
        | none => withoutNulls value
      mergeEntries (Entries.put name next base) rest

end

end DesignTokens.Document
