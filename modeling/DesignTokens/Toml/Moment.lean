import DesignTokens.Number.Decimal

/-! Dates and times of day, read into their one written form. -/

namespace DesignTokens.Toml

def number (digits : List Char) : Nat :=
  digits.foldl (fun n c => n * 10 + (c.toNat - '0'.toNat)) 0

def readField (width low high : Nat) (chars : List Char) : Option (List Char × List Char) :=
  let digits := chars.take width
  if digits.length = width ∧ digits.all Char.isDigit ∧
      low ≤ number digits ∧ number digits ≤ high then
    some (digits, chars.drop width)
  else none

def expect (c : Char) : List Char → Option (List Char)
  | first :: rest => if first = c then some rest else none
  | [] => none

def isLeapYear (year : Nat) : Bool := year % 4 = 0 && (year % 100 ≠ 0 || year % 400 = 0)

def daysIn (year month : Nat) : Nat :=
  if month = 2 then (if isLeapYear year then 29 else 28)
  else if month = 4 ∨ month = 6 ∨ month = 9 ∨ month = 11 then 30
  else 31

def readDate (chars : List Char) : Option (List Char × List Char) := do
  let (year, rest) ← readField 4 0 9999 chars
  let (month, rest) ← readField 2 1 12 (← expect '-' rest)
  let (day, rest) ← readField 2 1 (daysIn (number year) (number month)) (← expect '-' rest)
  some (year ++ '-' :: month ++ '-' :: day, rest)

/-- A fraction keeps nine digits, and of those no trailing zeros. -/
def readSecondFraction (chars : List Char) : List Char × List Char :=
  match chars with
  | '.' :: rest =>
      match rest.takeWhile Char.isDigit with
      | [] => ([], chars)
      | digits =>
          let kept := ((digits.take 9).reverse.dropWhile (· = '0')).reverse
          (if kept = [] then [] else '.' :: kept, rest.dropWhile Char.isDigit)
  | _ => ([], chars)

def readTime (chars : List Char) : Option (List Char × List Char) := do
  let (hour, rest) ← readField 2 0 23 chars
  let (minute, rest) ← readField 2 0 59 (← expect ':' rest)
  let (second, rest) ← readField 2 0 60 (← expect ':' rest)
  let (fraction, rest) := readSecondFraction rest
  some (hour ++ ':' :: minute ++ ':' :: second ++ fraction, rest)

/-- An offset from universal time. A zero offset has a plus sign, however it is written. -/
def readOffset (chars : List Char) : List Char × List Char :=
  match chars with
  | 'Z' :: rest => (['Z'], rest)
  | 'z' :: rest => (['Z'], rest)
  | sign :: rest =>
      let found := do
        let (hour, rest) ← readField 2 0 23 rest
        let (minute, rest) ← readField 2 0 59 (← expect ':' rest)
        some (hour, minute, rest)
      match found with
      | some (hour, minute, rest) =>
          if sign = '+' ∨ sign = '-' then
            let isZero := number hour = 0 ∧ number minute = 0
            ((if isZero then '+' else sign) :: (hour ++ ':' :: minute), rest)
          else ([], chars)
      | none => ([], chars)
  | [] => ([], [])

def readMoment (chars : List Char) : Option (String × List Char) :=
  match readDate chars with
  | some (date, separator :: rest) =>
      if separator = 'T' ∨ separator = 't' ∨ separator = ' ' then
        match readTime rest with
        | some (time, rest) =>
            let (offset, rest) := readOffset rest
            some (String.ofList (date ++ 'T' :: time ++ offset), rest)
        | none => some (String.ofList date, separator :: rest)
      else some (String.ofList date, separator :: rest)
  | some (date, []) => some (String.ofList date, [])
  | none => (readTime chars).map fun (time, rest) => (String.ofList time, rest)

end DesignTokens.Toml
