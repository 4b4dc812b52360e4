import DesignTokens.Build.Disk
import DesignTokens.Build.FileName
import DesignTokens.Entries

/-!
A disk held in memory. Paths are walked from a working folder, or from the root if they are
absolute; every step of a walk starts in a folder that is there, so a path through a missing
folder leads nowhere, even if it comes back from it.
-/

namespace DesignTokens.Build

inductive Node where
  | file (content : ByteArray)
  | folder (entries : List (String × Node))

namespace Node

def isFolder : Node → Bool
  | .folder _ => true
  | .file _ => false

def at? : List String → Node → Option Node
  | [], node => some node
  | name :: rest, .folder entries => (Entries.value? name entries).bind (at? rest)
  | _ :: _, .file _ => none

/-- Puts a node at a place. Folders on the way are made as needed, and a file in the way stays. -/
def plant : Node → List String → Node → Node
  | _, [], new => new
  | .folder entries, name :: rest, new =>
      let next := (Entries.value? name entries).getD (.folder [])
      .folder (Entries.put name (next.plant rest new) entries)
  | .file content, _ :: _, _ => .file content

mutual

def files : Node → List (List String × ByteArray)
  | .file content => [([], content)]
  | .folder entries => filesIn entries

def filesIn : List (String × Node) → List (List String × ByteArray)
  | [] => []
  | (name, node) :: rest =>
      (files node).map (fun (place, content) => (name :: place, content)) ++ filesIn rest

end

end Node

structure MemoryDisk where
  root : Node
  working : List String
  reports : List Report

namespace MemoryDisk

def empty (working : List String) : MemoryDisk :=
  ⟨(Node.folder []).plant working (.folder []), working, []⟩

def isFolder (disk : MemoryDisk) (place : List String) : Bool :=
  match disk.root.at? place with
  | some node => node.isFolder
  | none => false

def nameFits (name : String) : Bool := name.utf8ByteSize ≤ 255

/-- One step from a place. The root is above itself. -/
def step (disk : MemoryDisk) (place : List String) (name : String) : Option (List String) :=
  if !disk.isFolder place then none
  else if name = ".." then some place.dropLast
  else if nameFits name then some (place ++ [name])
  else none

def origin (disk : MemoryDisk) (path : String) : List String :=
  if isAbsolute path then [] else disk.working

/-- Where a path leads. Only its last name may be missing. -/
def place? (disk : MemoryDisk) (path : String) : Option (List String) :=
  if isPath path then (pathSteps path).foldlM disk.step (disk.origin path) else none

def endsInPlace (path : String) : Bool :=
  ((Text.split '/' path).filter (· ≠ "")).getLast? = some "."

/-- A path that ends in a slash or in a step to the place itself asks for a folder. -/
def asksFolder (path : String) : Bool := path.toList.getLast? = some '/' || endsInPlace path

def read (disk : MemoryDisk) (path : String) : Option ByteArray := do
  let place ← disk.place? path
  match disk.root.at? place with
  | some (.file content) => if asksFolder path then none else some content
  | _ => none

def write (disk : MemoryDisk) (path : String) (content : ByteArray) : Option MemoryDisk := do
  let place ← disk.place? path
  if asksFolder path || disk.isFolder place then none
  else some { disk with root := disk.root.plant place (.file content) }

/-- Makes one folder. A missing one cannot be made by a path with a step to the place itself. -/
def makeFolder (disk : MemoryDisk) (path : String) : Option MemoryDisk := do
  let place ← disk.place? path
  match disk.root.at? place with
  | some (.folder _) => some disk
  | some (.file _) => none
  | none =>
      if endsInPlace path then none
      else some { disk with root := disk.root.plant place (.folder []) }

def files (disk : MemoryDisk) : List (String × ByteArray) :=
  let all := ((disk.root.at? disk.working).getD (.folder [])).files
  (all.map fun (place, content) => (Text.join '/' place, content)).mergeSort fun a b =>
    decide (a.1 ≤ b.1)

def report (disk : MemoryDisk) (line : Report) : MemoryDisk :=
  { disk with reports := disk.reports ++ [line] }

def settle (change : MemoryDisk → Option MemoryDisk) : StateM MemoryDisk Bool := fun disk =>
  match change disk with
  | some disk => (true, disk)
  | none => (false, disk)

end MemoryDisk

instance : Disk (StateM MemoryDisk) where
  read path := do return (← get).read path
  write path text := MemoryDisk.settle fun disk => disk.write path text.toUTF8
  makeFolder path := MemoryDisk.settle fun disk => disk.makeFolder path
  report line := modify fun disk => disk.report line

end DesignTokens.Build
