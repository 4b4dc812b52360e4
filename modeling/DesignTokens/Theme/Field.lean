import DesignTokens.Token.Value

/-! Theme fields, and where each of them gets its value. -/

namespace DesignTokens.Theme

open Token

inductive Rule where
  | copy (field : String)
  | constant (value : Binary64)

inductive Source where
  | token (path : String) (kind : Kind)
  | derived (rule : Rule)

structure Field where
  name : String
  source : Source

inductive Tier where
  | semantic
  | component
  deriving DecidableEq

def Tier.name : Tier → String
  | .semantic => "Semantic"
  | .component => "Component"

namespace Field

def text (name path : String) : Field := ⟨name, .token path .text⟩

def number (name path : String) : Field := ⟨name, .token path .number⟩

def copy (name source : String) : Field := ⟨name, .derived (.copy source)⟩

def constant (name : String) (value : Binary64) : Field := ⟨name, .derived (.constant value)⟩

/-- Fields below `semantic` come first, all others belong to the components. -/
def tier (field : Field) : Tier :=
  if "semantic.".toList.isPrefixOf field.name.toList then .semantic else .component

def isSourced (field : Field) : Bool :=
  match field.source with
  | .token _ _ => true
  | .derived _ => false

end Field

def requiredPaths (fields : List Field) : List String :=
  fields.foldl (fun paths field =>
    match field.source with
    | .token path _ => if path ∈ paths then paths else paths ++ [path]
    | .derived _ => paths) []

end DesignTokens.Theme
