import DesignTokens.Entries
import DesignTokens.Number.Binary64

/-! Documents: the values that token files, themes and overrides are written in. -/

namespace DesignTokens

/-- A whole number of at most 64 bits, or a finite binary number. -/
inductive Number where
  | integer (value : Int)
  | binary (value : Binary64)
  deriving DecidableEq

/-- Objects keep their entries in order. -/
inductive Document where
  | null
  | bool (value : Bool)
  | number (value : Number)
  | text (value : String)
  | array (items : List Document)
  | object (entries : List (String × Document))

namespace Number

abbrev signedLimit : Nat := 0x8000000000000000

abbrev unsignedLimit : Nat := 0x10000000000000000

def toBinary64 : Number → Binary64
  | .integer z => .ofInt z
  | .binary x => x

/-- Numbers of one form are compared as numbers; the two forms are never equal. -/
def same : Number → Number → Bool
  | .integer a, .integer b => a = b
  | .binary x, .binary y => x.sameValue y
  | _, _ => false

/-- A number read from a word: whole numbers below `2 ^ 53` in integer form. -/
def ofBinary64 (x : Binary64) : Number :=
  match x.whole? with
  | some z => .integer z
  | none => .binary x

end Number

namespace Document

/-- Infinities and what is no number have no written form and become `null`. -/
def ofBinary64 (x : Binary64) : Document :=
  if x.isFinite then .number (.ofBinary64 x) else .null

def text? : Document → Option String
  | .text s => some s
  | _ => none

def number? : Document → Option Number
  | .number n => some n
  | _ => none

def entries? : Document → Option (Entries Document)
  | .object entries => some entries
  | _ => none

def field? (name : String) (document : Document) : Option Document :=
  document.entries?.bind (Entries.value? name)

/-- The value reached by names, through objects only. -/
def at? : List String → Document → Option Document
  | [], document => some document
  | name :: rest, document => (document.field? name).bind (at? rest)

mutual

def compact : Document → Document
  | .number (.binary x) => .number (.ofBinary64 x)
  | .array items => .array (compactItems items)
  | .object entries => .object (compactEntries entries)
  | other => other

def compactItems : List Document → List Document
  | [] => []
  | item :: rest => compact item :: compactItems rest

def compactEntries : List (String × Document) → List (String × Document)
  | [] => []
  | (name, value) :: rest => (name, compact value) :: compactEntries rest

end

mutual

/-- Equality of values: objects are compared without regard to the order of their entries. -/
def same : Document → Document → Bool
  | .null, .null => true
  | .bool a, .bool b => a = b
  | .number a, .number b => a.same b
  | .text a, .text b => a = b
  | .array a, .array b => sameItems a b
  | .object a, .object b => a.length = b.length && sameEntries a b
  | _, _ => false

def sameItems : List Document → List Document → Bool
  | [], [] => true
  | a :: as, b :: bs => same a b && sameItems as bs
  | _, _ => false

def sameEntries : List (String × Document) → List (String × Document) → Bool
  | [], _ => true
  | (name, value) :: rest, others =>
      (match Entries.value? name others with
        | some other => same value other
        | none => false) && sameEntries rest others

end

end Document

end DesignTokens
