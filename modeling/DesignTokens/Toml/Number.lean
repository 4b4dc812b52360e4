import DesignTokens.Document.Basic
import DesignTokens.Json.Reader
import DesignTokens.Toml.Moment

/-! Numbers of TOML texts: signed integers of 64 bits in four bases, and binary numbers. -/

namespace DesignTokens.Toml

/-- Digits of which an underscore may part two. -/
def moreDigits (isDigit : Char → Bool) : List Char → Option (List Char × List Char)
  | [] => some ([], [])
  | '_' :: rest =>
      match rest with
      | [] => none
      | c :: rest =>
          if isDigit c then (moreDigits isDigit rest).map fun (digits, rest) => (c :: digits, rest)
          else none
  | c :: rest =>
      if isDigit c then (moreDigits isDigit rest).map fun (digits, rest) => (c :: digits, rest)
      else some ([], c :: rest)

def readDigits (isDigit : Char → Bool) : List Char → Option (List Char × List Char)
  | [] => none
  | c :: rest =>
      if isDigit c then (moreDigits isDigit rest).map fun (digits, rest) => (c :: digits, rest)
      else none

def readWhole : List Char → Option (List Char × List Char)
  | '0' :: rest => some (['0'], rest)
  | chars => readDigits Char.isDigit chars

def readBased (base : Nat) (chars : List Char) : Option (Int × List Char) := do
  let isDigit (c : Char) : Bool := (Json.hexDigit? c).any fun digit => digit < base
  let (digits, rest) ← readDigits isDigit chars
  let n := digits.foldl (fun n c => n * base + (Json.hexDigit? c).getD 0) 0
  if n < Number.signedLimit then some (n, rest) else none

def readSign : List Char → Option Bool × List Char
  | '-' :: rest => (some true, rest)
  | '+' :: rest => (some false, rest)
  | chars => (none, chars)

def readPower : List Char → Option (Option Int × List Char)
  | [] => some (none, [])
  | mark :: rest =>
      if Json.isExponentMark mark then do
        let (sign, rest) := readSign rest
        let (digits, rest) ← readDigits Char.isDigit rest
        let n : Int := number digits
        some (some (if sign = some true then -n else n), rest)
      else some (none, mark :: rest)

def readPlaces : List Char → Option (Option (List Char) × List Char)
  | '.' :: rest => (readDigits Char.isDigit rest).map fun (digits, rest) => (some digits, rest)
  | chars => some (none, chars)

/-- Infinities and what is no number have no place in a document: they count as `null`. -/
def binary (x : Binary64) : Document := if x.isFinite then .number (.binary x) else .null

/--
A decimal number after its sign. A number above every finite word is refused, one below is not.
-/
def readDecimal (negative : Bool) (chars : List Char) : Option (Document × List Char) := do
  let (whole, rest) ← readWhole chars
  let (places, rest) ← readPlaces rest
  let (power, rest) ← readPower rest
  if places.isNone ∧ power.isNone then
    let n : Int := number whole
    let z := if negative then -n else n
    let limit : Int := Number.signedLimit
    if -limit ≤ z ∧ z < limit then some (.number (.integer z), rest) else none
  else
    let fraction := places.getD []
    let decimal : Decimal := ⟨number (whole ++ fraction), power.getD 0 - fraction.length⟩
    let x := decimal.toBinary64 negative
    if x = .infinity false then none else some (binary x, rest)

def readNumber (chars : List Char) : Option (Document × List Char) :=
  match chars with
  | '0' :: 'x' :: rest => (readBased 16 rest).map fun (z, rest) => (.number (.integer z), rest)
  | '0' :: 'o' :: rest => (readBased 8 rest).map fun (z, rest) => (.number (.integer z), rest)
  | '0' :: 'b' :: rest => (readBased 2 rest).map fun (z, rest) => (.number (.integer z), rest)
  | _ =>
      let (sign, rest) := readSign chars
      match rest with
      | 'i' :: 'n' :: 'f' :: rest => some (.null, rest)
      | 'n' :: 'a' :: 'n' :: rest => some (.null, rest)
      | _ => readDecimal (sign = some true) rest

end DesignTokens.Toml
