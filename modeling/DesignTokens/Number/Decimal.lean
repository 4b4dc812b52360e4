import DesignTokens.Number.Binary64

/-!
Decimal texts of binary numbers. The digits are the fewest that read back to the same word, and of
those the nearest to it.
-/

namespace DesignTokens

structure Decimal where
  digits : Nat
  exponent : Int
  deriving DecidableEq

inductive Tie where
  | even
  | up

namespace Decimal

def digitChars (n : Nat) : List Char := Nat.toDigits 10 n

/-- How many digits stand before the point: the number is below `10 ^ (this)`. -/
def places (x : Decimal) : Int := (digitChars x.digits).length + x.exponent

/--
The word nearest to a decimal. Decimals from `10 ^ 310` on are beyond every finite word and those
below `10 ^ (-330)` nearer to zero than to any other, so powers of ten stay small.
-/
def toBinary64 (negative : Bool) (x : Decimal) : Binary64 :=
  if x.digits = 0 ∨ x.places < -330 then .zero negative
  else if 310 < x.places then .infinity negative
  else
    let (n, d) := Binary64.divPower 10 (-x.exponent) x.digits 1
    .ofRatio negative n d

def trimBy : Nat → Decimal → Decimal
  | 0, x => x
  | steps + 1, x => if x.digits % 10 = 0 then trimBy steps ⟨x.digits / 10, x.exponent + 1⟩ else x

def trim (x : Decimal) : Decimal :=
  if x.digits = 0 then x else trimBy (digitChars x.digits).length x

def ceilingExponent (numerator denominator : Nat) : Int :=
  let k : Int := (digitChars numerator).length - (digitChars denominator).length
  let (n, d) := Binary64.divPower 10 k numerator denominator
  if n < d then k else k + 1

def readsBack (x : Binary64) (candidate : Decimal) : Bool :=
  candidate.toBinary64 x.negative = x

/-- The nearer of the two grid points around a quotient, of those that read back. -/
def choose (tie : Tie) (x : Binary64) (numerator denominator : Nat) (grid : Int) : Option Decimal :=
  let (n, d) := Binary64.divPower 10 grid numerator denominator
  let below : Decimal := ⟨n / d, grid⟩
  let above : Decimal := ⟨n / d + 1, grid⟩
  match readsBack x below, readsBack x above with
  | false, false => none
  | true, false => some below
  | false, true => some above
  | true, true =>
      let twice := 2 * (n % d)
      if twice < d then some below
      else if d < twice then some above
      else match tie with
        | .up => some above
        | .even => some (if n / d % 2 = 0 then below else above)

/-- The exact value of a finite word. Every binary fraction ends in decimal. -/
def exact (x : Binary64) : Decimal :=
  if 0 ≤ x.scale then ⟨x.significand * Nat.pow 2 x.scale.toNat, 0⟩
  else ⟨x.significand * Nat.pow 5 (-x.scale).toNat, x.scale⟩

/--
The shortest decimal of a finite word: grids of one digit, of two and so on up to seventeen are
tried in turn, and the exact value stands behind them. A grid has one digit more than its `extra`.
-/
def shortest (tie : Tie) (x : Binary64) : Decimal :=
  if x.isZero then ⟨0, 0⟩
  else
    let (n, d) := x.ratio
    let k := ceilingExponent n d
    let onGrid (extra : Nat) : Option Decimal := choose tie x n d (k - 1 - extra)
    trim (((List.range 17).findSome? onGrid).getD (exact x))

def zeros (count : Nat) : List Char := List.replicate count '0'

def plain (x : Decimal) : List Char :=
  let chars := digitChars x.digits
  if 0 ≤ x.exponent then chars ++ zeros x.exponent.toNat
  else if 0 < x.places then chars.take x.places.toNat ++ '.' :: chars.drop x.places.toNat
  else '0' :: '.' :: (zeros (-x.places).toNat ++ chars)

def scientific (x : Decimal) : List Char :=
  let mantissa := match digitChars x.digits with
    | [] => []
    | [digit] => [digit]
    | digit :: more => digit :: '.' :: more
  let power := x.places - 1
  mantissa ++ 'e' :: (if power < 0 then '-' else '+') :: digitChars power.natAbs

end Decimal

end DesignTokens
