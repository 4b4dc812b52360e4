import DesignTokens.Proofs.Toml.Number
import Mathlib.Data.List.TakeWhile

/-!
Number texts of JSON. The digits of a text spell a value, and no two numbers that documents have are
written with the same text.
-/

namespace DesignTokens.Json

variable {x y : Binary64} {decimal : Decimal} {front back chars others : List Char} {sign other : Bool}
  {z : Int} {n m : Number}

def spelledPower : List Char → Int
  | _ :: '-' :: digits => -(Toml.number digits : Int)
  | _ :: _ :: digits => Toml.number digits
  | _ => 0

/-- What digits spell, exactly: a point may part them, and an exponent may follow. -/
def spelledValue (chars : List Char) : ℚ :=
  let mantissa := chars.takeWhile (· ≠ 'e')
  let front := mantissa.takeWhile (· ≠ '.')
  let back := (mantissa.dropWhile (· ≠ '.')).drop 1
  let power := spelledPower (chars.dropWhile (· ≠ 'e'))
  (⟨Toml.number (front ++ back), power - back.length⟩ : Decimal).value

def behindPoint : List Char → List Char
  | [] => []
  | c :: more => '.' :: c :: more

def magnitudeChars (decimal : Decimal) : List Char :=
  if decimal.places - 1 < -5 ∨ 15 < decimal.places - 1 then decimal.scientific
  else if 0 ≤ decimal.exponent then decimal.plain ++ ['.', '0']
  else decimal.plain

theorem binaryChars_eq (x : Binary64) :
    binaryChars x = signed x.negative (magnitudeChars (Decimal.shortest .even x)) := by
  rw [binaryChars]
  split
  · rename_i zero
    rw [Decimal.shortest, if_pos zero]
    rfl
  · rfl

theorem takeWhile_before {stop : Char} (apart : ∀ c ∈ front, c ≠ stop) :
    (front ++ stop :: back).takeWhile (· ≠ stop) = front := by
  rw [List.takeWhile_append_of_pos (by simpa using apart), List.takeWhile_cons_of_neg (by simp),
    List.append_nil]

theorem dropWhile_before {stop : Char} (apart : ∀ c ∈ front, c ≠ stop) :
    (front ++ stop :: back).dropWhile (· ≠ stop) = stop :: back := by
  rw [List.dropWhile_append_of_pos (by simpa using apart), List.dropWhile_cons_of_neg (by simp)]

theorem while_apart {stop : Char} (apart : ∀ c ∈ chars, c ≠ stop) :
    chars.takeWhile (· ≠ stop) = chars ∧ chars.dropWhile (· ≠ stop) = [] :=
  ⟨List.takeWhile_eq_self_iff.mpr (by simpa using apart),
    List.dropWhile_eq_nil_iff.mpr (by simpa using apart)⟩

theorem apart_of_digits (stop : Char) (digits : ∀ c ∈ chars, c.isDigit = true)
    (other : stop.isDigit = false) : ∀ c ∈ chars, c ≠ stop :=
  fun c member => Toml.ne_of_isDigit (digits c member) other

theorem spelledValue_eq {power : List Char} (digits : ∀ c ∈ front, c.isDigit = true)
    (digits' : ∀ c ∈ back, c.isDigit = true) (mark : power = [] ∨ ∃ rest, power = 'e' :: rest) :
    spelledValue (front ++ behindPoint back ++ power) =
      (⟨Toml.number (front ++ back), spelledPower power - back.length⟩ : Decimal).value := by
  have apart : ∀ c ∈ front ++ behindPoint back, c ≠ 'e' := by
    have left := apart_of_digits 'e' digits (by decide)
    have right := apart_of_digits 'e' digits' (by decide)
    cases back with
    | nil => simpa [behindPoint] using left
    | cons c more =>
        refine List.forall_mem_append.mpr ⟨left, List.forall_mem_cons.mpr ⟨by decide, right⟩⟩
  have cut : (front ++ behindPoint back ++ power).takeWhile (· ≠ 'e') = front ++ behindPoint back ∧
      (front ++ behindPoint back ++ power).dropWhile (· ≠ 'e') = power := by
    rcases mark with rfl | ⟨rest, rfl⟩
    · rw [List.append_nil]
      exact while_apart apart
    · exact ⟨takeWhile_before apart, dropWhile_before apart⟩
  have point := apart_of_digits '.' digits (by decide)
  have halves : (front ++ behindPoint back).takeWhile (· ≠ '.') = front ∧
      ((front ++ behindPoint back).dropWhile (· ≠ '.')).drop 1 = back := by
    cases back with
    | nil =>
        rw [behindPoint, List.append_nil, (while_apart point).1, (while_apart point).2]
        exact ⟨rfl, rfl⟩
    | cons c more =>
        rw [behindPoint, takeWhile_before point, dropWhile_before point]
        exact ⟨rfl, rfl⟩
  simp only [spelledValue, cut, halves]

theorem spelledPower_eq (power : Int) :
    spelledPower ('e' :: (if power < 0 then '-' else '+') :: Decimal.digitChars power.natAbs) =
      power := by
  by_cases below : power < 0
  · rw [if_pos below, spelledPower, Toml.number_digitChars]
    omega
  · rw [if_neg below, spelledPower, Toml.number_digitChars]
    · omega
    · decide

theorem digitChars_start (n : Nat) :
    ∃ c more, Decimal.digitChars n = c :: more ∧ c.isDigit = true := by
  cases digits : Decimal.digitChars n with
  | nil => exact absurd digits Nat.toDigits_ne_nil
  | cons c more => exact ⟨c, more, rfl, Toml.digitChars_all n c (digits ▸ List.mem_cons_self)⟩

theorem scientific_eq (decimal : Decimal) : ∃ c more, Decimal.digitChars decimal.digits = c :: more ∧
    c.isDigit = true ∧ decimal.scientific = [c] ++ behindPoint more ++ 'e' ::
      (if decimal.places - 1 < 0 then '-' else '+') ::
        Decimal.digitChars (decimal.places - 1).natAbs := by
  obtain ⟨c, more, digits, digit⟩ := digitChars_start decimal.digits
  refine ⟨c, more, digits, digit, ?_⟩
  rw [Decimal.scientific, digits]
  cases more <;> rfl

theorem spelledValue_scientific (decimal : Decimal) :
    spelledValue decimal.scientific = decimal.value := by
  obtain ⟨c, more, digits, first, text⟩ := scientific_eq decimal
  have all := Toml.digitChars_all decimal.digits
  have read := Toml.number_digitChars decimal.digits
  have places : decimal.places = (Decimal.digitChars decimal.digits).length + decimal.exponent := rfl
  rw [digits] at all read places
  have later := (List.forall_mem_cons.mp all).2
  have exponent : decimal.places - 1 - more.length = decimal.exponent := by
    rw [places, List.length_cons]
    omega
  rw [text, spelledValue_eq (List.forall_mem_singleton.mpr first) later (.inr ⟨_, rfl⟩), spelledPower_eq,
    List.singleton_append, read, exponent]

theorem spelledValue_of_spelled (spelled : Toml.Spelled decimal chars front back) :
    spelledValue chars = decimal.value := by
  have text : chars = front ++ behindPoint back ++ [] := by
    rw [spelled.text, List.append_nil]
    cases some : back with
    | nil => exact absurd some spelled.filled
    | cons c more => rfl
  rw [text, spelledValue_eq spelled.whole.all spelled.digits (.inl rfl), ← spelled.value]
  simp [spelledPower]

theorem magnitudeChars_cases (decimal : Decimal) (written : decimal.digits ≠ 0 ∨ decimal = ⟨0, 0⟩) :
    magnitudeChars decimal = decimal.scientific ∨
      ∃ front back, Toml.Spelled decimal (magnitudeChars decimal) front back := by
  rw [magnitudeChars]
  split
  · exact .inl rfl
  · refine .inr ?_
    rcases written with some | rfl
    · have spelled := Toml.spelled_plain some
      split
      · rename_i large
        simpa only [large, if_true] using spelled
      · rename_i small
        simpa only [small, if_false, List.append_nil] using spelled
    · have nothing : (⟨0, 0⟩ : Decimal).value = 0 := Decimal.value_eq_zero_iff.mpr rfl
      refine ⟨['0'], ['0'], rfl, .zero, List.cons_ne_nil _ _, List.forall_mem_singleton.mpr rfl, ?_⟩
      rw [nothing]
      exact Decimal.value_eq_zero_iff.mpr rfl

theorem spelledValue_magnitudeChars (written : decimal.digits ≠ 0 ∨ decimal = ⟨0, 0⟩) :
    spelledValue (magnitudeChars decimal) = decimal.value := by
  rcases magnitudeChars_cases decimal written with text | ⟨front, back, spelled⟩
  · rw [text, spelledValue_scientific]
  · exact spelledValue_of_spelled spelled

theorem magnitudeChars_shape (written : decimal.digits ≠ 0 ∨ decimal = ⟨0, 0⟩) :
    (∃ c more, magnitudeChars decimal = c :: more ∧ c.isDigit = true) ∧
      ('.' ∈ magnitudeChars decimal ∨ 'e' ∈ magnitudeChars decimal) := by
  rcases magnitudeChars_cases decimal written with text | ⟨front, back, spelled⟩
  · obtain ⟨c, more, -, digit, spells⟩ := scientific_eq decimal
    rw [text, spells]
    exact ⟨⟨c, _, rfl, digit⟩, .inr (List.mem_append_right _ List.mem_cons_self)⟩
  · obtain ⟨c, more, rfl⟩ := List.exists_cons_of_ne_nil spelled.whole.ne_nil
    rw [spelled.text]
    refine ⟨⟨c, _, rfl, spelled.whole.all c List.mem_cons_self⟩, ?_⟩
    exact .inl (List.mem_append_right _ List.mem_cons_self)

theorem written_shortest (finite : x.isFinite = true) :
    (Decimal.shortest .even x).digits ≠ 0 ∨ Decimal.shortest .even x = ⟨0, 0⟩ := by
  cases zero : x.isZero with
  | true =>
      rw [Decimal.shortest, if_pos zero]
      exact .inr rfl
  | false => exact .inl (Decimal.digits_shortest finite zero)

theorem signed_inj {c d : Char} (digit : c.isDigit = true) (digit' : d.isDigit = true)
    (same : signed sign (c :: chars) = signed other (d :: others)) :
    sign = other ∧ c :: chars = d :: others := by
  have first : c ≠ '-' := Toml.ne_of_isDigit digit (by decide)
  have first' : d ≠ '-' := Toml.ne_of_isDigit digit' (by decide)
  cases sign with
  | false =>
      cases other with
      | false => exact ⟨rfl, same⟩
      | true => exact absurd (List.cons.inj same).1 first
  | true =>
      cases other with
      | false => exact absurd (List.cons.inj same).1.symm first'
      | true => exact ⟨rfl, (List.cons.inj same).2⟩

theorem mem_signed {c : Char} (member : c ∈ signed sign chars) : c = '-' ∨ c ∈ chars := by
  cases sign with
  | false => exact .inr member
  | true => exact List.mem_cons.mp member

theorem mem_signed_of_mem {c : Char} (sign : Bool) (member : c ∈ chars) : c ∈ signed sign chars := by
  cases sign with
  | false => exact member
  | true => exact List.mem_cons_of_mem _ member

theorem integerChars_inj {z w : Int} (same : integerChars z = integerChars w) : z = w := by
  obtain ⟨c, more, digits, digit⟩ := digitChars_start z.natAbs
  obtain ⟨d, rest, digits', digit'⟩ := digitChars_start w.natAbs
  rw [integerChars, integerChars, digits, digits'] at same
  obtain ⟨signs, chars⟩ := signed_inj digit digit' same
  have sizes : z.natAbs = w.natAbs := by
    rw [← Toml.number_digitChars z.natAbs, digits, chars, ← digits', Toml.number_digitChars]
  have below : z < 0 ↔ w < 0 := decide_eq_decide.mp signs
  omega

theorem binaryChars_inj (finite : x.isFinite = true) (finite' : y.isFinite = true)
    (same : binaryChars x = binaryChars y) : x = y := by
  have written := written_shortest finite
  have written' := written_shortest finite'
  obtain ⟨⟨c, more, start, digit⟩, -⟩ := magnitudeChars_shape written
  obtain ⟨⟨d, rest, start', digit'⟩, -⟩ := magnitudeChars_shape written'
  rw [binaryChars_eq, binaryChars_eq, start, start'] at same
  obtain ⟨signs, chars⟩ := signed_inj digit digit' same
  have values : (Decimal.shortest .even x).value = (Decimal.shortest .even y).value := by
    rw [← spelledValue_magnitudeChars written, ← spelledValue_magnitudeChars written', start, start',
      chars]
  calc
    x = (Decimal.shortest .even x).toBinary64 x.negative := (Decimal.toBinary64_shortest .even finite).symm
    _ = (Decimal.shortest .even y).toBinary64 y.negative := by
      rw [signs, Decimal.toBinary64_congr values]
    _ = y := Decimal.toBinary64_shortest .even finite'

theorem integerChars_ne_binaryChars (finite : x.isFinite = true) (z : Int) :
    integerChars z ≠ binaryChars x := by
  intro same
  have plain : ∀ c ∈ integerChars z, c = '-' ∨ c.isDigit = true := by
    intro c member
    exact (mem_signed member).imp_right (Toml.digitChars_all z.natAbs c)
  rw [same, binaryChars_eq] at plain
  rcases (magnitudeChars_shape (written_shortest finite)).2 with point | mark
  · exact absurd (plain '.' (mem_signed_of_mem _ point)) (by decide)
  · exact absurd (plain 'e' (mem_signed_of_mem _ mark)) (by decide)

/-- A number that documents have is known by its text. -/
theorem numberText_inj (fits : n.Fits) (fits' : m.Fits) (same : numberText n = numberText m) :
    n = m := by
  cases n with
  | integer z =>
      cases m with
      | integer w => rw [integerChars_inj (String.ofList_inj.mp same)]
      | binary y =>
          have finite : y.isFinite = true := fits'
          rw [numberText, numberText, if_pos finite] at same
          exact absurd (String.ofList_inj.mp same) (integerChars_ne_binaryChars finite z)
  | binary x =>
      have finite : x.isFinite = true := fits
      cases m with
      | integer w =>
          rw [numberText, numberText, if_pos finite] at same
          exact absurd (String.ofList_inj.mp same.symm) (integerChars_ne_binaryChars finite w)
      | binary y =>
          have finite' : y.isFinite = true := fits'
          rw [numberText, numberText, if_pos finite, if_pos finite'] at same
          rw [binaryChars_inj finite finite' (String.ofList_inj.mp same)]

end DesignTokens.Json
