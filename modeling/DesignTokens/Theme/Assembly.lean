import DesignTokens.Document.Edit
import DesignTokens.Theme.Basic
import DesignTokens.Token.Resolver

/-!
Assembling themes from token trees. The semantic tier comes before the components, and in each
tier the fields that tokens give come before those derived from other fields.
-/

namespace DesignTokens.Theme

open Token

def Rule.value? (resolved : Entries Scalar) : Rule → Option Scalar
  | .constant x => some (.number x)
  | .copy field => resolved.value? field

def Rule.dependency : Rule → String
  | .copy field => field
  | .constant _ => ""

/-- The fields that tokens give, in order. The first that fails ends the work. -/
def resolveSourced (tree : Tree) :
    List Field → Entries Scalar → Except ThemeError (Entries Scalar)
  | [], resolved => .ok resolved
  | field :: rest, resolved =>
      match field.source with
      | .derived _ => resolveSourced tree rest resolved
      | .token path kind =>
          match tree.resolveAt path with
          | .error e => .error (.token e)
          | .ok scalar =>
              if scalar.kind = kind then resolveSourced tree rest (resolved.put field.name scalar)
              else .error (.typeMismatch field.name path kind scalar.kind)

def Field.rule? (field : Field) : Option (String × Rule) :=
  match field.source with
  | .derived rule => some (field.name, rule)
  | .token _ _ => none

/-- One pass over the derived fields. A field settled early in a pass serves those behind it. -/
def settlePass : List (String × Rule) → Entries Scalar → List (String × Rule) × Entries Scalar
  | [], resolved => ([], resolved)
  | (field, rule) :: rest, resolved =>
      match rule.value? resolved with
      | some scalar => settlePass rest (resolved.put field scalar)
      | none =>
          let (left, resolved) := settlePass rest resolved
          ((field, rule) :: left, resolved)

/-- Passes until no field is left. A pass that settles nothing means that the rest never will be. -/
def settle (pending : List (String × Rule)) (resolved : Entries Scalar) :
    Except ThemeError (Entries Scalar) :=
  match pending with
  | [] => .ok resolved
  | (field, rule) :: rest =>
      let next := settlePass ((field, rule) :: rest) resolved
      if _fewer : next.1.length < rest.length + 1 then settle next.1 next.2
      else .error (.unresolvedDependency field rule.dependency)
termination_by pending.length
decreasing_by exact _fewer

def resolveTier (tree : Tree) (fields : List Field) (tier : Tier) (resolved : Entries Scalar) :
    Except ThemeError (Entries Scalar) :=
  let own := fields.filter fun field => field.tier = tier
  match resolveSourced tree own resolved with
  | .error e => .error e
  | .ok resolved => settle (own.filterMap Field.rule?) resolved

def resolveFields (tree : Tree) (fields : List Field) : Except ThemeError (Entries Scalar) :=
  match resolveTier tree fields .semantic [] with
  | .error e => .error e
  | .ok resolved => resolveTier tree fields .component resolved

def fold : List (String × Scalar) → Entries Document → Except ThemeError (Entries Document)
  | [], document => .ok document
  | (field, scalar) :: rest, document =>
      match Document.insert? scalar.toDocument (Text.split '.' field) document with
      | none => .error (.shape (.nestedUnderLeaf field))
      | some document => fold rest document

def assembleDocument (tree : Tree) (fields : List Field) (name : String) :
    Except ThemeError Document :=
  match resolveFields tree fields with
  | .error e => .error e
  | .ok resolved =>
      match fold resolved [("name", .text name)] with
      | .error e => .error e
      | .ok entries => .ok (.object entries)

def assembleWith (tree : Tree) (fields : List Field) (name : String) : Except ThemeError Theme :=
  match assembleDocument tree fields name with
  | .error e => .error e
  | .ok document => ofDocument document

def assemble (tree : Tree) (name : String) : Except ThemeError Theme :=
  assembleWith tree fields name

end DesignTokens.Theme
