import DesignTokens.Token.Value

/-! Token trees: objects that hold groups and tokens. A token is an object that declares a value. -/

namespace DesignTokens.Token

structure Tree where
  root : Entries Document

namespace Tree

def toDocument (tree : Tree) : Document := .object tree.root

def ofDocument : Document → Except TokenError Tree
  | .object root => .ok ⟨root⟩
  | found => .error (.invalidRoot found)

/-- Walks down by segments. A missing one is reported with the reference that asked for it. -/
def descend (reference : String) : List String → Document → Except TokenError Document
  | [], node => .ok node
  | segment :: rest, node =>
      match node.field? segment with
      | some next => descend reference rest next
      | none => .error (.pathNotFound reference segment)

def lookup (tree : Tree) (path : Path) (reference : String) : Except TokenError Document :=
  descend reference path.segments tree.toDocument

def declared (tree : Tree) (path : Path) (reference : String) : Except TokenError Document :=
  match tree.lookup path reference with
  | .error e => .error e
  | .ok node =>
      match node.field? valueKey with
      | some value => .ok value
      | none => .error (.noValue path.text)

def declaresValue (entries : Entries Document) : Bool := (entries.value? valueKey).isSome

mutual

def places : Document → List (List String)
  | .object entries => (if declaresValue entries then [[]] else []) ++ placesIn entries
  | _ => []

def placesIn : List (String × Document) → List (List String)
  | [] => []
  | (name, value) :: rest => (places value).map (name :: ·) ++ placesIn rest

end

mutual

/-- One trail of names serves the whole walk; nothing is listed below a token. -/
def collect (trail listed : List String) (name : String) : Document → List String × List String
  | .object entries =>
      let trail := trail ++ [name]
      let (trail, listed) :=
        if declaresValue entries then (trail, listed ++ [Text.join '.' trail])
        else collectIn trail listed entries
      (trail.dropLast, listed)
  | _ => (trail, listed)

def collectIn (trail listed : List String) : List (String × Document) → List String × List String
  | [] => (trail, listed)
  | (name, value) :: rest =>
      let (trail, listed) := collect trail listed name value
      collectIn trail listed rest

end

/-- The texts of the outermost tokens' paths. The root itself is no token. -/
def tokenPaths (tree : Tree) : List String :=
  let (_, listed) := collectIn [] [] tree.root
  listed

end Tree

end DesignTokens.Token
