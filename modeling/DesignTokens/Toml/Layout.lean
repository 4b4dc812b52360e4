import DesignTokens.Toml.Section

/-!
The document that statements lay out. A table may be named once, in a header or by dotted keys,
and not in both ways; only a table that was merely passed through on the way to another may still
be named.
-/

namespace DesignTokens.Toml

/-- How a table came to be. -/
inductive Origin where
  /-- Passed through by the header of a table below it. -/
  | implied
  /-- Passed through by a dotted key. -/
  | dotted
  /-- Named by a header, or written inline. -/
  | named
  deriving DecidableEq

inductive Item where
  | value (document : Document)
  | table (origin : Origin) (entries : List (String × Item))
  | tables (elements : List (List (String × Item)))

mutual

def Item.toDocument : Item → Document
  | .value document => document
  | .table _ entries => .object (entriesToDocuments entries)
  | .tables elements => .array (elementsToDocuments elements)

def entriesToDocuments : List (String × Item) → List (String × Document)
  | [] => []
  | (name, item) :: rest => (name, item.toDocument) :: entriesToDocuments rest

def elementsToDocuments : List (List (String × Item)) → List Document
  | [] => []
  | entries :: rest => .object (entriesToDocuments entries) :: elementsToDocuments rest

end

abbrev Change := Origin → Entries Item → Option (Entries Item)

/--
Changes the table at a path below a table. Missing tables on the way are made. A path leads into the
last element of an array of tables, and never into a value; a dotted key enters no named table.
-/
def changeAt (byDots : Bool) (change : Change) : List String → Change
  | [], origin, entries => change origin entries
  | name :: rest, _, entries =>
      match entries.value? name with
      | none =>
          let origin := if byDots then Origin.dotted else Origin.implied
          (changeAt byDots change rest origin []).map fun inner =>
            entries.put name (.table origin inner)
      | some (.value _) => none
      | some (.table origin inner) =>
          if byDots ∧ origin = .named then none
          else (changeAt byDots change rest origin inner).map fun inner =>
            entries.put name (.table origin inner)
      | some (.tables elements) =>
          match elements.getLast? with
          | none => none
          | some last => (changeAt byDots change rest .named last).map fun inner =>
              entries.put name (.tables (elements.dropLast ++ [inner]))

/-- A new name for a value; behind dots only in a table that dotted keys made. -/
def addValue (behindDots : Bool) (name : String) (value : Document) : Change :=
  fun origin entries =>
    if behindDots = decide (origin = .dotted) ∧ (entries.value? name).isNone then
      some (entries ++ [(name, .value value)])
    else none

def addPair (entries : Entries Item) (pair : Pair) : Option (Entries Item) :=
  match pair.key.getLast? with
  | none => none
  | some name =>
      let path := pair.key.dropLast
      changeAt true (addValue (!path.isEmpty) name pair.value) path .named entries

def addPairs (entries : Entries Item) (pairs : List Pair) : Option (Entries Item) :=
  pairs.foldlM addPair entries

/-- A table that was only implied takes its place anew when it is named. -/
def nameTable (pairs : List Pair) (name : String) : Change := fun _ entries =>
  match entries.value? name with
  | none => (addPairs [] pairs).map fun inner => entries.put name (.table .named inner)
  | some (.table .implied inner) =>
      (addPairs inner pairs).map fun inner => (entries.remove name).put name (.table .named inner)
  | some _ => none

def addElement (pairs : List Pair) (name : String) : Change := fun _ entries =>
  match entries.value? name with
  | none => (addPairs [] pairs).map fun inner => entries.put name (.tables [inner])
  | some (.tables elements) =>
      (addPairs [] pairs).map fun inner => entries.put name (.tables (elements ++ [inner]))
  | some _ => none

def addSection (entries : Entries Item) (part : Section) : Option (Entries Item) :=
  let (path, change) := match part.header with
    | .table path => (path, nameTable part.pairs)
    | .element path => (path, addElement part.pairs)
  match path.getLast? with
  | none => none
  | some name => changeAt false (change name) path.dropLast .named entries

def inlineTable (pairs : List Pair) : Option Document :=
  (addPairs [] pairs).map fun entries => .object (entriesToDocuments entries)

def Sheet.toDocument (sheet : Sheet) : Option Document := do
  let top ← addPairs [] sheet.top
  let entries ← sheet.sections.foldlM addSection top
  some (.object (entriesToDocuments entries))

end DesignTokens.Toml
