import DesignTokens.Proofs.Number.Decimal
import DesignTokens.Proofs.Toml.Quoting
import DesignTokens.Proofs.Toml.Writable

/-! Numbers are read back as they are, up to what ends them. -/

namespace DesignTokens.Toml

variable {c stop : Char} {digits fraction body rest : List Char} {negative : Bool} {x : Binary64}

theorem ne_of_isDigit (digit : c.isDigit = true) (other : stop.isDigit = false) : c ≠ stop := by
  rintro rfl
  rw [digit] at other
  cases other

theorem moreDigits_cons (digit : c.isDigit = true) :
    moreDigits Char.isDigit (c :: rest) =
      (moreDigits Char.isDigit rest).map fun (digits, rest) => (c :: digits, rest) := by
  have apart : c ≠ '_' := ne_of_isDigit digit (by decide)
  rw [moreDigits]
  · rw [if_pos digit]
  · exact apart

theorem moreDigits_digits (all : ∀ c ∈ digits, c.isDigit = true) (beyond : stop.isDigit = false)
    (apart : stop ≠ '_') :
    moreDigits Char.isDigit (digits ++ stop :: rest) = some (digits, stop :: rest) := by
  induction digits with
  | nil =>
      rw [List.nil_append, moreDigits]
      · simp [beyond]
      · exact apart
  | cons c digits ih =>
      rw [List.cons_append, moreDigits_cons (all c List.mem_cons_self),
        ih fun d later => all d (List.mem_cons_of_mem c later)]
      rfl

theorem readDigits_digits (filled : digits ≠ []) (all : ∀ c ∈ digits, c.isDigit = true)
    (beyond : stop.isDigit = false) (apart : stop ≠ '_') :
    readDigits Char.isDigit (digits ++ stop :: rest) = some (digits, stop :: rest) := by
  cases digits with
  | nil => exact absurd rfl filled
  | cons c digits =>
      have later : moreDigits Char.isDigit (digits ++ stop :: rest) = some (digits, stop :: rest) :=
        moreDigits_digits (fun d later => all d (List.mem_cons_of_mem c later)) beyond apart
      rw [List.cons_append, readDigits, if_pos (all c List.mem_cons_self), later]
      rfl

inductive Whole : List Char → Prop
  | zero : Whole ['0']
  | digits {c : Char} {more : List Char} (first : c ≠ '0')
      (all : ∀ d ∈ c :: more, d.isDigit = true) : Whole (c :: more)

theorem Whole.all (whole : Whole digits) : ∀ c ∈ digits, c.isDigit = true := by
  cases whole with
  | zero => exact List.forall_mem_singleton.mpr rfl
  | digits first all => exact all

theorem Whole.ne_nil (whole : Whole digits) : digits ≠ [] := by
  cases whole with
  | zero => exact List.cons_ne_nil _ _
  | digits first all => exact List.cons_ne_nil _ _

theorem readWhole_whole (whole : Whole digits) (beyond : stop.isDigit = false) (apart : stop ≠ '_') :
    readWhole (digits ++ stop :: rest) = some (digits, stop :: rest) := by
  cases whole with
  | zero => rfl
  | digits first all =>
      rw [List.cons_append, readWhole]
      · exact readDigits_digits (List.cons_ne_nil _ _) all beyond apart
      · exact fun _ same => first (List.cons.inj same).1

theorem number_eq (digits : List Char) : number digits = Nat.ofDigitChars 10 digits 0 := by
  simp only [number, Nat.ofDigitChars_eq_foldl, Nat.mul_comm]

theorem number_digitChars (n : Nat) : number (Decimal.digitChars n) = n := by
  rw [number_eq, Decimal.digitChars, Nat.ofDigitChars_ten_toDigits]

theorem number_append_zeros (digits : List Char) (count : Nat) :
    number (digits ++ Decimal.zeros count) = number digits * 10 ^ count := by
  rw [number_eq, number_eq, Nat.ofDigitChars_append, Decimal.zeros,
    Nat.ofDigitChars_replicate_zero, Nat.mul_comm]

theorem number_zeros_append (count : Nat) (digits : List Char) :
    number (Decimal.zeros count ++ digits) = number digits := by
  rw [number_eq, number_eq, Nat.ofDigitChars_append, Decimal.zeros,
    Nat.ofDigitChars_replicate_zero, Nat.mul_zero]

theorem digitChars_all (n : Nat) : ∀ c ∈ Decimal.digitChars n, c.isDigit = true := fun _ member =>
  Nat.isDigit_of_mem_toDigits (by decide) (by decide) member

theorem zeros_all (count : Nat) : ∀ c ∈ Decimal.zeros count, c.isDigit = true := by
  intro c member
  rw [List.eq_of_mem_replicate member]
  decide

theorem digitChar_ne_zero : ∀ n < 10, n ≠ 0 → n.digitChar ≠ '0' := by
  decide

theorem digitChars_first {n : Nat} (positive : n ≠ 0) :
    ∃ c more, Decimal.digitChars n = c :: more ∧ c ≠ '0' := by
  induction n using Nat.strongRecOn with
  | ind n ih =>
      rw [Decimal.digitChars, Nat.toDigits_eq_if (by decide)]
      split
      · rename_i small
        exact ⟨n.digitChar, [], rfl, digitChar_ne_zero n small positive⟩
      · rename_i large
        obtain ⟨c, more, digits, first⟩ := ih (n / 10) (by omega) (by omega)
        rw [Decimal.digitChars] at digits
        exact ⟨c, more ++ [(n % 10).digitChar], by rw [digits]; rfl, first⟩

theorem whole_digitChars (n : Nat) : Whole (Decimal.digitChars n) := by
  by_cases zero : n = 0
  · subst zero
    exact .zero
  · obtain ⟨c, more, digits, first⟩ := digitChars_first zero
    have all := digitChars_all n
    rw [digits] at all ⊢
    exact .digits first all

theorem Whole.append_zeros {n : Nat} (positive : n ≠ 0) (count : Nat) :
    Whole (Decimal.digitChars n ++ Decimal.zeros count) := by
  obtain ⟨c, more, digits, first⟩ := digitChars_first positive
  have all : ∀ d ∈ Decimal.digitChars n ++ Decimal.zeros count, d.isDigit = true := by
    intro d member
    rcases List.mem_append.mp member with early | late
    · exact digitChars_all n d early
    · exact zeros_all count d late
  rw [digits] at all ⊢
  exact .digits first all

theorem Whole.take {n : Nat} (positive : n ≠ 0) (count : Nat) (some : count ≠ 0) :
    Whole ((Decimal.digitChars n).take count) := by
  obtain ⟨c, more, digits, first⟩ := digitChars_first positive
  obtain ⟨less, next⟩ := Nat.exists_eq_succ_of_ne_zero some
  have all : ∀ d ∈ (Decimal.digitChars n).take count, d.isDigit = true := fun d member =>
    digitChars_all n d (List.mem_of_mem_take member)
  rw [digits, next, List.take_succ_cons] at all ⊢
  exact .digits first all

/-- A fraction of a written number, and the decimal that reading makes of it. -/
structure Spelled (x : Decimal) (text front back : List Char) : Prop where
  text : text = front ++ '.' :: back
  whole : Whole front
  filled : back ≠ []
  digits : ∀ c ∈ back, c.isDigit = true
  value : (⟨number (front ++ back), -back.length⟩ : Decimal).value = x.value

theorem spelled_zeros {x : Decimal} (some : x.digits ≠ 0) (large : 0 ≤ x.exponent) :
    Spelled x (Decimal.digitChars x.digits ++ Decimal.zeros x.exponent.toNat ++ ['.', '0'])
      (Decimal.digitChars x.digits ++ Decimal.zeros x.exponent.toNat) ['0'] where
  text := rfl
  whole := .append_zeros some x.exponent.toNat
  filled := List.cons_ne_nil _ _
  digits := List.forall_mem_singleton.mpr rfl
  value := by
    have power : (10 : ℚ) ^ x.exponent = 10 ^ x.exponent.toNat := by
      rw [← zpow_natCast, Int.toNat_of_nonneg large]
    have more : number (Decimal.digitChars x.digits ++ Decimal.zeros x.exponent.toNat ++ ['0']) =
        x.digits * 10 ^ x.exponent.toNat * 10 := by
      calc
        _ = number (Decimal.digitChars x.digits ++ Decimal.zeros x.exponent.toNat) * 10 ^ 1 :=
          number_append_zeros _ 1
        _ = x.digits * 10 ^ x.exponent.toNat * 10 := by
          rw [number_append_zeros, number_digitChars, pow_one]
    simp only [Decimal.value, more, power, List.length_singleton]
    push_cast
    rw [mul_assoc, zpow_neg_one, mul_inv_cancel₀ (by norm_num), mul_one]

theorem spelled_among {x : Decimal} (some : x.digits ≠ 0) (small : ¬ 0 ≤ x.exponent)
    (inside : 0 < x.places) :
    Spelled x ((Decimal.digitChars x.digits).take x.places.toNat ++
        '.' :: (Decimal.digitChars x.digits).drop x.places.toNat)
      ((Decimal.digitChars x.digits).take x.places.toNat)
      ((Decimal.digitChars x.digits).drop x.places.toNat) := by
  have places : x.places = (Decimal.digitChars x.digits).length + x.exponent := rfl
  refine ⟨rfl, Whole.take some x.places.toNat (by omega), ?_, ?_, ?_⟩
  · rw [Ne, List.drop_eq_nil_iff]
    omega
  · exact fun c member => digitChars_all _ c (List.mem_of_mem_drop member)
  · have count : -(((Decimal.digitChars x.digits).drop x.places.toNat).length : Int) = x.exponent := by
      rw [List.length_drop]
      omega
    rw [List.take_append_drop, number_digitChars, count]

theorem spelled_behind {x : Decimal} (outside : ¬ 0 < x.places) :
    Spelled x ('0' :: '.' :: (Decimal.zeros (-x.places).toNat ++ Decimal.digitChars x.digits))
      ['0'] (Decimal.zeros (-x.places).toNat ++ Decimal.digitChars x.digits) where
  text := rfl
  whole := .zero
  filled := List.append_ne_nil_of_right_ne_nil _ Nat.toDigits_ne_nil
  digits := by
    intro c member
    rcases List.mem_append.mp member with early | late
    · exact zeros_all _ c early
    · exact digitChars_all _ c late
  value := by
    have places : x.places = (Decimal.digitChars x.digits).length + x.exponent := rfl
    have count : -((Decimal.zeros (-x.places).toNat ++ Decimal.digitChars x.digits).length : Int) =
        x.exponent := by
      rw [List.length_append, Decimal.zeros, List.length_replicate]
      omega
    have same : number (['0'] ++ (Decimal.zeros (-x.places).toNat ++ Decimal.digitChars x.digits)) =
        x.digits := by
      calc
        _ = number (Decimal.zeros (-x.places).toNat ++ Decimal.digitChars x.digits) :=
          number_zeros_append 1 _
        _ = x.digits := by rw [number_zeros_append, number_digitChars]
    rw [same, count]

theorem spelled_plain {x : Decimal} (some : x.digits ≠ 0) :
    ∃ front back, Spelled x (x.plain ++ if 0 ≤ x.exponent then ['.', '0'] else []) front back := by
  rw [Decimal.plain]
  by_cases large : 0 ≤ x.exponent
  · simp only [large, if_true]
    exact ⟨_, _, spelled_zeros some large⟩
  · by_cases inside : 0 < x.places
    · simp only [large, inside, if_true, if_false, List.append_nil]
      exact ⟨_, _, spelled_among some large inside⟩
    · simp only [large, inside, if_false, List.append_nil]
      exact ⟨_, _, spelled_behind inside⟩

theorem isDigit_of_isStop (ends : isStop stop = true) : stop.isDigit = false := by
  rcases isStop_iff.mp ends with rfl | rfl | rfl | rfl <;> rfl

theorem readPlaces_of_isStop (ends : isStop stop = true) (rest : List Char) :
    readPlaces (stop :: rest) = some (none, stop :: rest) ∧
      readPower (stop :: rest) = some (none, stop :: rest) := by
  rcases isStop_iff.mp ends with rfl | rfl | rfl | rfl <;> exact ⟨rfl, rfl⟩

theorem readDecimal_integer (whole : Whole digits) (ends : isStop stop = true) :
    readDecimal negative (digits ++ stop :: rest) =
      let z : Int := if negative then -(number digits : Int) else number digits
      if -(Number.signedLimit : Int) ≤ z ∧ z < Number.signedLimit then
        some (.number (.integer z), stop :: rest)
      else none := by
  obtain ⟨noPlaces, noPower⟩ := readPlaces_of_isStop ends rest
  rw [readDecimal, readWhole_whole whole (isDigit_of_isStop ends) (ne_of_isStop ends (by decide))]
  simp only [Option.bind_eq_bind, Option.bind_some, noPlaces, noPower]
  rfl

theorem readDecimal_fraction (whole : Whole digits) (filled : fraction ≠ [])
    (all : ∀ c ∈ fraction, c.isDigit = true) (ends : isStop stop = true) :
    readDecimal negative (digits ++ '.' :: (fraction ++ stop :: rest)) =
      let x := (⟨number (digits ++ fraction), -fraction.length⟩ : Decimal).toBinary64 negative
      if x = .infinity false then none else some (binary x, stop :: rest) := by
  have places : readPlaces ('.' :: (fraction ++ stop :: rest)) =
      some (some fraction, stop :: rest) := by
    rw [readPlaces, readDigits_digits filled all (isDigit_of_isStop ends)
      (ne_of_isStop ends (by decide))]
    rfl
  have exponent : (0 : Int) - fraction.length = -fraction.length := by omega
  rw [readDecimal, readWhole_whole whole (by decide) (by decide)]
  simp only [Option.bind_eq_bind, Option.bind_some, places, (readPlaces_of_isStop ends rest).2]
  rw [← exponent]
  rfl

theorem readNumber_signed (whole : Whole digits) (noBase : stop ≠ 'x' ∧ stop ≠ 'o' ∧ stop ≠ 'b') :
    readNumber (Json.signed negative (digits ++ stop :: rest)) =
      readDecimal negative (digits ++ stop :: rest) := by
  cases whole with
  | zero =>
      cases negative with
      | true => rfl
      | false =>
          simp [Json.signed, readNumber, noBase, readSign]
  | @digits c more first all =>
      have digit := all c List.mem_cons_self
      have letters : c ≠ 'i' ∧ c ≠ 'n' :=
        ⟨ne_of_isDigit digit (by decide), ne_of_isDigit digit (by decide)⟩
      have signs : c ≠ '-' ∧ c ≠ '+' :=
        ⟨ne_of_isDigit digit (by decide), ne_of_isDigit digit (by decide)⟩
      cases negative with
      | true =>
          simp [Json.signed, readNumber, letters, readSign]
      | false =>
          simp [Json.signed, readNumber, first, letters, signs, readSign]

theorem expect_of_readField {separator : Char} {width low high : Nat} {found more : List Char}
    (apart : separator ∉ body) (ends : isStop stop = true) (other : stop ≠ separator)
    (field : readField width low high (body ++ stop :: rest) = some (found, more)) :
    expect separator more = none := by
  simp only [readField] at field
  split at field
  · rename_i whole
    obtain ⟨length, all, -, -⟩ := whole
    simp only [Option.some.injEq, Prod.mk.injEq] at field
    -- What ends the number is no digit, so the field does not reach beyond it.
    have inside : width ≤ body.length := by
      by_contra beyond
      obtain ⟨extra, count⟩ := Nat.exists_eq_add_of_lt (Nat.lt_of_not_le beyond)
      have present : stop ∈ (body ++ stop :: rest).take width := by
        rw [List.take_append, List.take_of_length_le (by omega), count]
        simp [Nat.add_assoc]
      exact absurd (List.all_eq_true.mp all _ present) (by simp [isDigit_of_isStop ends])
    rw [← field.2, List.drop_append_of_le_length inside]
    cases tail : body.drop width with
    | nil => simp [expect, other]
    | cons first others =>
        have member : first ∈ body := List.mem_of_mem_drop (tail ▸ List.mem_cons_self)
        have different : first ≠ separator := fun same => apart (same ▸ member)
        simp [expect, different]
  · cases field

theorem readDate_body (apart : '-' ∉ body) (ends : isStop stop = true) :
    readDate (body ++ stop :: rest) = none := by
  rw [readDate]
  cases field : readField 4 0 9999 (body ++ stop :: rest) with
  | none => rfl
  | some found =>
      simp [expect_of_readField apart ends (ne_of_isStop ends (by decide)) field]

theorem readTime_body (apart : ':' ∉ body) (ends : isStop stop = true) :
    readTime (body ++ stop :: rest) = none := by
  rw [readTime]
  cases field : readField 2 0 23 (body ++ stop :: rest) with
  | none => rfl
  | some found =>
      simp [expect_of_readField apart ends (ne_of_isStop ends (by decide)) field]

theorem readField_minus (width low high : Nat) (chars : List Char) :
    readField (width + 1) low high ('-' :: chars) = none := by
  simp [readField]

theorem readMoment_signed (apart : '-' ∉ body ∧ ':' ∉ body) (ends : isStop stop = true) :
    readMoment (Json.signed negative (body ++ stop :: rest)) = none := by
  cases negative with
  | true => simp [readMoment, readDate, readTime, Json.signed, readField_minus]
  | false => simp [readMoment, Json.signed, readDate_body apart.1 ends, readTime_body apart.2 ends]

theorem readScalar_signed (whole : Whole digits)
    (noMoment : readMoment (Json.signed negative (digits ++ rest)) = none) :
    readScalar (Json.signed negative (digits ++ rest)) =
      readNumber (Json.signed negative (digits ++ rest)) := by
  cases negative with
  | true =>
      rw [Json.signed, if_pos rfl] at noMoment ⊢
      simp [readScalar, noMoment]
  | false =>
      cases digits with
      | nil => exact absurd rfl whole.ne_nil
      | cons c more =>
          have digit := whole.all c List.mem_cons_self
          have quotes : c ≠ '"' ∧ c ≠ '\'' :=
            ⟨ne_of_isDigit digit (by decide), ne_of_isDigit digit (by decide)⟩
          have letters : c ≠ 't' ∧ c ≠ 'f' :=
            ⟨ne_of_isDigit digit (by decide), ne_of_isDigit digit (by decide)⟩
          rw [Json.signed, if_neg (by decide), List.cons_append] at noMoment ⊢
          simp [readScalar, quotes, letters, noMoment]

theorem apart_of_all (all : ∀ c ∈ body, c.isDigit = true ∨ c = '.') : '-' ∉ body ∧ ':' ∉ body := by
  constructor
  · intro member
    exact absurd (all _ member) (by decide)
  · intro member
    exact absurd (all _ member) (by decide)

theorem readScalar_integer {z : Int} (signed : (Number.integer z).Signed)
    (ends : isStop stop = true) :
    readScalar (Json.integerChars z ++ stop :: rest) =
      some (.number (.integer z), stop :: rest) := by
  have whole := whole_digitChars z.natAbs
  have apart := apart_of_all fun c member => .inl (digitChars_all z.natAbs c member)
  have text : Json.integerChars z ++ stop :: rest =
      Json.signed (decide (z < 0)) (Decimal.digitChars z.natAbs ++ stop :: rest) := by
    simp only [Json.integerChars, Json.signed]
    split <;> rfl
  have noBase : stop ≠ 'x' ∧ stop ≠ 'o' ∧ stop ≠ 'b' := ⟨ne_of_isStop ends (by decide),
    ne_of_isStop ends (by decide), ne_of_isStop ends (by decide)⟩
  rw [text, readScalar_signed whole (readMoment_signed apart ends),
    readNumber_signed whole noBase, readDecimal_integer whole ends, number_digitChars]
  have size : (if decide (z < 0) = true then -(z.natAbs : Int) else (z.natAbs : Int)) = z := by
    by_cases below : z < 0
    · simp only [below, decide_true, if_true]
      omega
    · simp only [below, decide_false, Bool.false_eq_true, if_false]
      omega
  simp only [size]
  exact if_pos signed

theorem readScalar_fraction (whole : Whole digits) (filled : fraction ≠ [])
    (all : ∀ c ∈ fraction, c.isDigit = true) (finite : x.isFinite = true)
    (ends : isStop stop = true)
    (back : (⟨number (digits ++ fraction), -fraction.length⟩ : Decimal).toBinary64 negative = x) :
    readScalar (Json.signed negative (digits ++ '.' :: fraction) ++ stop :: rest) =
      some (.number (.binary x), stop :: rest) := by
  have apart : '-' ∉ digits ++ '.' :: fraction ∧ ':' ∉ digits ++ '.' :: fraction := by
    apply apart_of_all
    intro c member
    rcases List.mem_append.mp member with early | late
    · exact .inl (whole.all c early)
    · rcases List.mem_cons.mp late with point | later
      · exact .inr point
      · exact .inl (all c later)
  have moment : readMoment (Json.signed negative (digits ++ '.' :: (fraction ++ stop :: rest))) = none := by
    have none : readMoment (Json.signed negative ((digits ++ '.' :: fraction) ++ stop :: rest)) = none :=
      readMoment_signed apart ends
    rwa [List.append_assoc, List.cons_append] at none
  have text : Json.signed negative (digits ++ '.' :: fraction) ++ stop :: rest =
      Json.signed negative (digits ++ '.' :: (fraction ++ stop :: rest)) := by
    simp only [Json.signed]
    split <;> simp
  have bounded : x ≠ .infinity false := by
    rintro rfl
    exact absurd finite (by decide)
  rw [text, readScalar_signed whole moment, readNumber_signed whole (by decide),
    readDecimal_fraction whole filled all ends]
  simp only [back]
  rw [if_neg bounded, binary, if_pos finite]

theorem readScalar_binary (finite : x.isFinite = true) (ends : isStop stop = true) :
    readScalar ((binaryText x).toList ++ stop :: rest) =
      some (.number (.binary x), stop :: rest) := by
  rw [binaryText]
  split
  · rename_i zero
    rw [String.toList_ofList]
    refine readScalar_fraction .zero (List.cons_ne_nil '0' []) (List.forall_mem_singleton.mpr rfl)
      finite ends ?_
    rw [Decimal.toBinary64, if_pos (.inl rfl), ← Binary64.eq_zero_of_isZero zero]
  · rename_i some
    have digits : (Decimal.shortest .up x).digits ≠ 0 :=
      Decimal.digits_shortest finite (Bool.eq_false_of_not_eq_true some)
    obtain ⟨front, back, spelled⟩ := spelled_plain digits
    rw [String.toList_ofList]
    simp only [spelled.text]
    refine readScalar_fraction spelled.whole spelled.filled spelled.digits finite ends ?_
    rw [Decimal.toBinary64_congr spelled.value]
    exact Decimal.toBinary64_shortest .up finite

/-- A number is read back, up to what ends it. -/
theorem readScalar_number {n : Number} (signed : n.Signed) (ends : isStop stop = true) :
    readScalar ((numberText n).toList ++ stop :: rest) = some (.number n, stop :: rest) := by
  cases n with
  | integer z =>
      rw [numberText, String.toList_ofList]
      exact readScalar_integer signed ends
  | binary x => exact readScalar_binary signed ends

end DesignTokens.Toml
