import DesignTokens.Document.Basic

/-!
Numbers of JSON texts. A fraction or an exponent makes a number binary. Its significand keeps the
leading digits that fit 64 bits, and powers of ten are applied to it in binary, one rounding a step.
-/

namespace DesignTokens.Json

/--
Appends digits to a significand while it stays below `2 ^ 64`, and counts the digits left out.
-/
def takeDigits (significand : Nat) : List Char → Nat × Nat
  | [] => (significand, 0)
  | c :: rest =>
      let next := significand * 10 + (c.toNat - '0'.toNat)
      if next < Number.unsignedLimit then takeDigits next rest else (significand, rest.length + 1)

def powerOfTen (n : Nat) : Binary64 := .ofInt (Nat.pow 10 n)

/--
A significand scaled by a power of ten, or none beyond the greatest finite word. A power above
`10 ^ 308` divides in two steps, and above `10 ^ 616` nothing is left.
-/
def scaled (significand : Nat) (exponent : Int) : Option Binary64 :=
  let start : Binary64 := .ofInt significand
  if start.isZero then some start
  else if 0 ≤ exponent then
    if exponent ≤ 308 then
      let product := start.mul (powerOfTen exponent.toNat)
      if product.isFinite then some product else none
    else none
  else
    let n := exponent.natAbs
    if n ≤ 308 then some (start.div (powerOfTen n))
    else if n ≤ 616 then some ((start.div (powerOfTen 308)).div (powerOfTen (n - 308)))
    else some (.zero false)

/-- Digits without fraction and exponent: an integer if it fits 64 bits, signed below zero. -/
def ofDigits (negative : Bool) (n : Nat) : Number :=
  if !negative then .integer n
  else if n = 0 ∨ Number.signedLimit < n then .binary (Binary64.ofInt n).negate
  else .integer (-n)

def readFraction : List Char → Option (Option (List Char) × List Char)
  | '.' :: rest =>
      match rest.takeWhile Char.isDigit with
      | [] => none
      | digits => some (some digits, rest.dropWhile Char.isDigit)
  | chars => some (none, chars)

def exponentDigits (negative : Bool) (chars : List Char) : Option (Option Int × List Char) :=
  match chars.takeWhile Char.isDigit with
  | [] => none
  | digits =>
      let n := digits.foldl (fun n c => n * 10 + (c.toNat - '0'.toNat)) 0
      some (some (if negative then -(n : Int) else n), chars.dropWhile Char.isDigit)

def isExponentMark (c : Char) : Bool := c = 'e' || c = 'E'

def readExponent : List Char → Option (Option Int × List Char)
  | [] => some (none, [])
  | mark :: rest =>
      if isExponentMark mark then
        match rest with
        | '-' :: digits => exponentDigits true digits
        | '+' :: digits => exponentDigits false digits
        | digits => exponentDigits false digits
      else some (none, mark :: rest)

def readUnsigned (negative : Bool) (chars : List Char) : Option (Number × List Char) := do
  let whole := chars.takeWhile Char.isDigit
  if whole = [] ∨ (whole.head? = some '0' ∧ whole.length ≠ 1) then none
  else
    let (fraction, rest) ← readFraction (chars.dropWhile Char.isDigit)
    let (exponent, rest) ← readExponent rest
    let (significand, skipped) := takeDigits 0 whole
    if fraction.isNone ∧ exponent.isNone ∧ skipped = 0 then
      some (ofDigits negative significand, rest)
    else
      let digits := fraction.getD []
      let (significand, dropped) := takeDigits significand digits
      let power : Int := skipped - (digits.length - dropped : Nat) + exponent.getD 0
      let magnitude ← scaled significand power
      some (.binary (if negative then magnitude.negate else magnitude), rest)

def readNumber : List Char → Option (Number × List Char)
  | '-' :: rest => readUnsigned true rest
  | chars => readUnsigned false chars

end DesignTokens.Json
