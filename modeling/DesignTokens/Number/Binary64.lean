/-!
Binary floating point of 64 bits, kept as the word itself. Every operation computes the exact value
in whole numbers and rounds once, to the nearest word and on a tie to the even one.
-/

namespace DesignTokens

abbrev Binary64.rankCount : Nat := 0x8000000000000000

abbrev Binary64.binade : Nat := 0x10000000000000

/--
A sign, and the other 63 bits as a number. Among finite words the rank grows with the magnitude.
-/
structure Binary64 where
  negative : Bool
  rank : Fin Binary64.rankCount
  deriving DecidableEq

/-- A quotient rounded to the nearest whole number, a half to the even neighbour. -/
def nearestEven (numerator denominator : Nat) : Nat :=
  let quotient := numerator / denominator
  let remainder := numerator % denominator
  if 2 * remainder < denominator then quotient
  else if denominator < 2 * remainder then quotient + 1
  else quotient + quotient % 2

namespace Binary64

def infiniteRank : Nat := 2047 * binade

def ofWord (word : UInt64) : Binary64 :=
  ⟨decide (rankCount ≤ word.toNat), ⟨word.toNat % rankCount, Nat.mod_lt _ (by decide)⟩⟩

def zero (negative : Bool) : Binary64 := ⟨negative, ⟨0, by decide⟩⟩

def infinity (negative : Bool) : Binary64 := ⟨negative, ⟨infiniteRank, by decide⟩⟩

theorem lt_of_lt_infiniteRank {rank : Nat} (finite : rank < infiniteRank) : rank < rankCount :=
  Nat.lt_trans finite (by decide)

/-- Ranks from the infinite one on stand for infinity. -/
def ofRank (negative : Bool) (rank : Nat) : Binary64 :=
  if finite : rank < infiniteRank then ⟨negative, ⟨rank, lt_of_lt_infiniteRank finite⟩⟩
  else infinity negative

def isFinite (x : Binary64) : Bool := x.rank.val < infiniteRank

def isNaN (x : Binary64) : Bool := infiniteRank < x.rank.val

def isZero (x : Binary64) : Bool := x.rank.val = 0

def negate (x : Binary64) : Binary64 := { x with negative := !x.negative }

def exponentField (x : Binary64) : Nat := x.rank.val / binade

/-- The magnitude of a finite word is `significand * 2 ^ scale`. -/
def significand (x : Binary64) : Nat :=
  if x.exponentField = 0 then x.rank.val else binade + x.rank.val % binade

def scale (x : Binary64) : Int := (max x.exponentField 1 : Int) - 1075

def divPower (base : Nat) (e : Int) (numerator denominator : Nat) : Nat × Nat :=
  if 0 ≤ e then (numerator, denominator * Nat.pow base e.toNat)
  else (numerator * Nat.pow base (-e).toNat, denominator)

def ratio (x : Binary64) : Nat × Nat := divPower 2 (-x.scale) x.significand 1

/-- The least scale, from the bottom one up, at which a quotient is below `2 ^ 53`. -/
def scaleFor (numerator denominator : Nat) : Int :=
  let low := max ((Nat.log2 numerator : Int) - Nat.log2 denominator - 53) (-1074)
  let (n, d) := divPower 2 low numerator denominator
  if n < 2 * binade * d then low else low + 1

/-- The word nearest to a quotient. A carry out of the significand runs into the exponent. -/
def ofRatio (negative : Bool) (numerator denominator : Nat) : Binary64 :=
  if numerator = 0 then zero negative
  else
    let q := scaleFor numerator denominator
    let (n, d) := divPower 2 q numerator denominator
    ofRank negative ((q + 1074).toNat * binade + nearestEven n d)

def ofInt (z : Int) : Binary64 := ofRatio (z < 0) z.natAbs 1

/-- The whole number that a word stands for, below `2 ^ 53` where every whole number is a word. -/
def whole? (x : Binary64) : Option Int :=
  let (n, d) := x.ratio
  if x.isFinite ∧ n % d = 0 ∧ n / d < 2 * binade then
    some (if x.negative then -(n / d : Nat) else (n / d : Nat))
  else none

/-- Numbers as values: the two zeros are equal, and what is no number equals nothing. -/
def sameValue (x y : Binary64) : Bool :=
  !x.isNaN && !y.isNaN && (x = y || (x.isZero && y.isZero))

def mul (x y : Binary64) : Binary64 :=
  let (a, b) := x.ratio
  let (c, d) := y.ratio
  ofRatio (x.negative != y.negative) (a * c) (b * d)

def div (x y : Binary64) : Binary64 :=
  let (a, b) := x.ratio
  let (c, d) := y.ratio
  ofRatio (x.negative != y.negative) (a * d) (b * c)

end Binary64

end DesignTokens
