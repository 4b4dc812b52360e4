import DesignTokens.Text.Split

/-! File names: the steps of a path, the paths above it, its extension, a name below a folder. -/

namespace DesignTokens.Build

/-- The steps of a path. Empty ones and those to the place itself lead nowhere. -/
def pathSteps (path : String) : List String :=
  (Text.split '/' path).filter fun step => !(step = "" || step = ".")

def isAbsolute (path : String) : Bool := path.toList.head? = some '/'

def isPath (path : String) : Bool :=
  path ≠ "" && path.utf8ByteSize < 4096 && !path.toList.contains '\x00'

def leading (path : String) (steps : List String) : String :=
  let names := Text.join '/' steps
  if isAbsolute path then "/" ++ names else names

/-- The paths that lead to a path, the outermost one first, and then the path as it is written. -/
def chain (path : String) : List String :=
  let steps := pathSteps path
  let counts := (List.range steps.length).drop 1
  (counts.map fun count => leading path (steps.take count)) ++ [path]

/-- What follows the last dot of a name, unless that dot is its first character. -/
def nameExtension? (name : List Char) : Option (List Char) :=
  let reversed := name.reverse
  match reversed.dropWhile (· ≠ '.') with
  | _ :: _ :: _ => some (reversed.takeWhile (· ≠ '.')).reverse
  | _ => none

def extension? (path : String) : Option String :=
  match (pathSteps path).getLast? with
  | none => none
  | some name => if name = ".." then none else (nameExtension? name.toList).map String.ofList

/-- A path below a folder. An absolute path stands for itself, and an empty folder adds nothing. -/
def below (folder path : String) : String :=
  if isAbsolute path ∨ folder = "" then path
  else if folder.toList.getLast? = some '/' then folder ++ path
  else folder ++ "/" ++ path

end DesignTokens.Build
