import DesignTokens.Token.Error
import DesignTokens.Token.Path

/-! Declared values, and the scalars that they resolve to. -/

namespace DesignTokens.Token

inductive Kind where
  | number
  | text
  deriving DecidableEq

def Kind.name : Kind → String
  | .number => "number"
  | .text => "string"

inductive Scalar where
  | number (value : Binary64)
  | text (value : String)
  deriving DecidableEq

namespace Scalar

def kind : Scalar → Kind
  | .number _ => .number
  | .text _ => .text

def number? : Scalar → Option Binary64
  | .number x => some x
  | .text _ => none

def text? : Scalar → Option String
  | .text s => some s
  | .number _ => none

def toDocument : Scalar → Document
  | .number x => .ofBinary64 x
  | .text s => .text s

/-- The JSON text written directly: whole numbers as integers, others as binary numbers. -/
def json : Scalar → String
  | .number x =>
      match x.whole? with
      | some z => String.ofList (Json.integerChars z)
      | none => Json.numberText (.binary x)
  | .text s => Json.quote s

/-- A number or a text read without regard to aliases; nothing else is a scalar. -/
def ofDocument? : Document → Option Scalar
  | .number n => some (.number n.toBinary64)
  | .text s => some (.text s)
  | _ => none

/-- Numbers are shown with all their digits and no exponent, and only as many as read back. -/
def display : Scalar → String
  | .number x =>
      if x.isNaN then "NaN"
      else if !x.isFinite then String.ofList (Json.signed x.negative ['i', 'n', 'f'])
      else String.ofList (Json.signed x.negative (Decimal.shortest .up x).plain)
  | .text s => s

end Scalar

inductive Declared where
  | concrete (value : Scalar)
  | reference (target : Path)

def valueKey : String := "$value"

def hexKey : String := "hex"

/-- A color object counts as its hex text. The path is that of the declaring token. -/
def Declared.ofDocument (path : String) (declared : Document) : Except TokenError Declared :=
  match declared with
  | .text s =>
      match Path.ofAlias? s with
      | some target => .ok (.reference target)
      | none => .ok (.concrete (.text s))
  | .number n => .ok (.concrete (.number n.toBinary64))
  | .object entries =>
      match Entries.value? hexKey entries with
      | some (.text hex) => .ok (.concrete (.text hex))
      | _ => .error (.unsupportedValue path declared)
  | _ => .error (.unsupportedValue path declared)

end DesignTokens.Token
