import DesignTokens.Toml.Quoting
import DesignTokens.Toml.Reader

/-! Quoted texts and names are read back, in whichever form they are written. -/

namespace DesignTokens.Toml

variable {c stop : Char} {chars more rest part : List Char}

/-- What stands behind a value: the end of its line, or what goes on or ends an array or a table. -/
def isStop (c : Char) : Bool := c = '\n' || c = ',' || c = ']' || c = ' '

theorem isStop_iff : isStop c = true ↔ c = '\n' ∨ c = ',' ∨ c = ']' ∨ c = ' ' := by
  simp [isStop, or_assoc]

theorem ne_of_isStop (ends : isStop stop = true) (other : isStop c = false) : stop ≠ c := by
  rintro rfl
  rw [ends] at other
  cases other

theorem codedChar?_control : ∀ n < 128, isControl (Char.ofNat n) = true →
    (List.replicate (4 - (upperHex n).length) '0' ++ upperHex n).length = 4 ∧
      codedChar? (List.replicate (4 - (upperHex n).length) '0' ++ upperHex n) =
        some (Char.ofNat n) := by
  decide +kernel

theorem isPlain_of_not_isControl (harmless : isControl c = false) (lineEnd : c ≠ '\n') :
    isPlain c = true := by
  simp only [isControl, Bool.or_eq_false_iff, Bool.and_eq_false_iff, decide_eq_false_iff_not] at harmless
  simp only [isPlain, Bool.or_eq_true, Bool.and_eq_true, decide_eq_true_eq]
  by_cases tab : c = '\t'
  · exact .inl tab
  · refine .inr ⟨?_, harmless.2⟩
    rcases harmless.1 with (high | same) | same
    · omega
    · exact absurd tab same
    · exact absurd lineEnd same

inductive Escaped (c : Char) : List Char → Prop
  | self (plain : isPlain c = true) (quote : c ≠ '"') (backslash : c ≠ '\\') : Escaped c [c]
  | letter {letter : Char} (unescaped : unescape? letter = some c) : Escaped c ['\\', letter]
  | code {a b d e : Char} (coded : codedChar? [a, b, d, e] = some c) :
      Escaped c ['\\', 'u', a, b, d, e]

theorem Escaped.of_digits :
    ∀ {digits : List Char}, digits.length = 4 → codedChar? digits = some c →
      Escaped c ('\\' :: 'u' :: digits)
  | [_, _, _, _], _, coded => .code coded

theorem escaped (c : Char) : Escaped c (escape c) := by
  rw [escape.eq_def]
  split
  iterate 7 exact .letter rfl
  rename_i tab lineEnd _ _ quote backslash
  split
  · rename_i control
    have small : c.toNat < 128 := by
      simp only [isControl, Bool.or_eq_true, Bool.and_eq_true, decide_eq_true_eq] at control
      omega
    have coded := codedChar?_control c.toNat small
    rw [Char.ofNat_toNat] at coded
    obtain ⟨length, read⟩ := coded control
    exact .of_digits length read
  · rename_i harmless
    exact .self (isPlain_of_not_isControl (by simpa using harmless) lineEnd)
      quote backslash

theorem readEscaped_step (form : Escaped c part) (more : List Char) :
    readEscaped (part ++ more) = prepend c (readEscaped more) := by
  cases form with
  | self plain quote backslash => simp [readEscaped, plain, backslash]
  | @letter letter unescaped =>
      have apart : letter ≠ 'u' ∧ letter ≠ 'U' := by
        constructor <;> (rintro rfl; cases unescaped)
      simp [readEscaped, unescaped, apart]
  | code coded => simp [readEscaped, coded]

theorem readEscaped_escape (chars rest : List Char) :
    readEscaped (chars.flatMap escape ++ '"' :: rest) = some (chars, rest) := by
  induction chars with
  | nil => rfl
  | cons c chars ih =>
      rw [List.flatMap_cons, List.append_assoc, readEscaped_step (escaped c), ih]
      rfl

theorem readLiteral_literal (plain : ∀ c ∈ chars, isPlain c = true) (quote : '\'' ∉ chars) :
    readLiteral (chars ++ '\'' :: rest) = some (chars, rest) := by
  induction chars with
  | nil => rfl
  | cons c chars ih =>
      have other : c ≠ '\'' := fun same => quote (same ▸ List.mem_cons_self)
      have later := ih (fun d member => plain d (List.mem_cons_of_mem c member))
        (fun member => quote (List.mem_cons_of_mem c member))
      simp [readLiteral, plain c List.mem_cons_self, later, prepend]

def withQuotes (quote : Char) (count : Nat) :
    Option (List Char × List Char) → Option (List Char × List Char) :=
  Option.map fun (text, rest) => (List.replicate count quote ++ text, rest)

theorem readEscapedLines_quotes {count : Nat} (few : count ≤ 2) (other : c ≠ '"') :
    readEscapedLines false (List.replicate count '"' ++ c :: rest) =
      withQuotes '"' count (readEscapedLines false (c :: rest)) := by
  have plain : isPlain '"' = true := by decide
  obtain rfl | rfl | rfl : count = 0 ∨ count = 1 ∨ count = 2 := by omega
  · simp [withQuotes]
  · simp [readEscapedLines, other, plain, prepend, withQuotes]
  · simp [readEscapedLines, other, plain, prepend, withQuotes, Function.comp_def]

theorem readEscapedLines_close {count : Nat} (few : count ≤ 2) (other : c ≠ '"') :
    readEscapedLines false (List.replicate count '"' ++ '"' :: '"' :: '"' :: c :: rest) =
      some (List.replicate count '"', c :: rest) := by
  obtain rfl | rfl | rfl : count = 0 ∨ count = 1 ∨ count = 2 := by omega
  · simp [readEscapedLines, other]
  · simp [readEscapedLines, other]
  · simp [readEscapedLines]

theorem readEscapedLines_step (form : Escaped c part) (more : List Char) :
    readEscapedLines false (part ++ more) = prepend c (readEscapedLines false more) := by
  cases form with
  | self plain quote backslash =>
      have noReturn : c ≠ '\r' := by
        rintro rfl
        cases plain
      simp [readEscapedLines, plain, quote, backslash, noReturn]
  | @letter letter unescaped =>
      have apart : letter ≠ 'u' ∧ letter ≠ 'U' := by
        constructor <;> (rintro rfl; cases unescaped)
      simp [readEscapedLines, unescaped, apart]
  | code coded => simp [readEscapedLines, coded]

theorem readEscapedLines_lineEnd (more : List Char) :
    readEscapedLines false ('\n' :: more) = prepend '\n' (readEscapedLines false more) := by
  simp [readEscapedLines]

theorem Escaped.first (form : Escaped c part) :
    ∃ first more, part = first :: more ∧ first ≠ '"' ∧ first ≠ '\n' ∧ first ≠ '\r' := by
  cases form with
  | self plain quote backslash =>
      refine ⟨c, [], rfl, quote, ?_, ?_⟩ <;> (rintro rfl; cases plain)
  | letter unescaped => exact ⟨_, _, rfl, by decide⟩
  | code coded => exact ⟨_, _, rfl, by decide⟩

theorem replicate_append_cons (count : Nat) (c : Char) (rest : List Char) :
    List.replicate count c ++ c :: rest = List.replicate (count + 1) c ++ rest := by
  rw [List.replicate_succ', List.append_assoc, List.singleton_append]

/-- The quotes that are read ahead count among those of which every third is escaped. -/
theorem readEscapedLines_lines (chars rest : List Char) {quotes : Nat} (few : quotes ≤ 2)
    (other : c ≠ '"') :
    readEscapedLines false
        (List.replicate quotes '"' ++ (escapeLines quotes chars ++ '"' :: '"' :: '"' :: c :: rest)) =
      some (List.replicate quotes '"' ++ chars, c :: rest) := by
  induction chars generalizing quotes with
  | nil =>
      rw [List.append_nil]
      exact readEscapedLines_close few other
  | cons first chars ih =>
      have fresh := ih (Nat.zero_le 2)
      rw [List.replicate_zero, List.nil_append, List.nil_append] at fresh
      by_cases quote : first = '"'
      · subst quote
        rw [escapeLines]
        by_cases third : quotes = 2
        · have step := readEscapedLines_step (.letter rfl : Escaped '"' ['\\', '"'])
            (escapeLines 0 chars ++ '"' :: '"' :: '"' :: c :: rest)
          rw [List.cons_append, List.cons_append, List.nil_append] at step
          rw [if_pos third, List.cons_append, readEscapedLines_quotes few (by decide),
            List.cons_append, step, fresh]
          rfl
        · rw [if_neg third, List.cons_append, replicate_append_cons, replicate_append_cons]
          exact ih (by omega)
      · by_cases lineEnd : first = '\n'
        · subst lineEnd
          rw [escapeLines, List.cons_append, readEscapedLines_quotes few (by decide),
            readEscapedLines_lineEnd, fresh]
          rfl
        · have form := escaped first
          have step := readEscapedLines_step form
            (escapeLines 0 chars ++ '"' :: '"' :: '"' :: c :: rest)
          obtain ⟨head, tail, parts, different, -⟩ := form.first
          rw [escapeLines, List.append_assoc]
          · rw [parts, List.cons_append] at step ⊢
            rw [readEscapedLines_quotes few different, step, fresh]
            rfl
          · exact quote
          · exact lineEnd

theorem readLiteralLines_quotes {count : Nat} (few : count ≤ 2) (other : c ≠ '\'') :
    readLiteralLines (List.replicate count '\'' ++ c :: rest) =
      withQuotes '\'' count (readLiteralLines (c :: rest)) := by
  have plain : isPlain '\'' = true := by decide
  obtain rfl | rfl | rfl : count = 0 ∨ count = 1 ∨ count = 2 := by omega
  · simp [withQuotes]
  · simp [readLiteralLines, other, plain, prepend, withQuotes]
  · simp [readLiteralLines, other, plain, prepend, withQuotes, Function.comp_def]

theorem readLiteralLines_close {count : Nat} (few : count ≤ 2) (other : c ≠ '\'') :
    readLiteralLines (List.replicate count '\'' ++ '\'' :: '\'' :: '\'' :: c :: rest) =
      some (List.replicate count '\'', c :: rest) := by
  obtain rfl | rfl | rfl : count = 0 ∨ count = 1 ∨ count = 2 := by omega
  · simp [readLiteralLines, other]
  · simp [readLiteralLines, other]
  · simp [readLiteralLines]

theorem readLiteralLines_step (plain : c = '\n' ∨ isPlain c = true) (other : c ≠ '\'')
    (more : List Char) :
    readLiteralLines (c :: more) = prepend c (readLiteralLines more) := by
  have noReturn : c ≠ '\r' := by
    rintro rfl
    exact absurd plain (by decide)
  simp [readLiteralLines, plain, other, noReturn]

theorem readLiteralLines_lines (rest : List Char) {quotes : Nat}
    (few : longestRun '\'' quotes chars ≤ 2) (plain : ∀ c ∈ chars, c = '\n' ∨ isPlain c = true) (other : c ≠ '\'') :
    readLiteralLines
        (List.replicate quotes '\'' ++ (chars ++ '\'' :: '\'' :: '\'' :: c :: rest)) =
      some (List.replicate quotes '\'' ++ chars, c :: rest) := by
  induction chars generalizing quotes with
  | nil =>
      rw [List.append_nil]
      exact readLiteralLines_close few other
  | cons first chars ih =>
      have later : ∀ c ∈ chars, c = '\n' ∨ isPlain c = true := fun d member =>
        plain d (List.mem_cons_of_mem first member)
      rw [longestRun] at few
      by_cases quote : first = '\''
      · subst quote
        rw [if_pos rfl] at few
        rw [List.cons_append, replicate_append_cons, replicate_append_cons]
        exact ih few later
      · rw [if_neg quote, Nat.max_le] at few
        have fresh := ih few.2 later
        rw [List.replicate_zero, List.nil_append, List.nil_append] at fresh
        rw [List.cons_append, readLiteralLines_quotes few.1 quote,
          readLiteralLines_step (plain first List.mem_cons_self) quote, fresh]
        rfl

theorem enclose_one (quote : Char) (body rest : List Char) :
    (enclose [quote] body).toList ++ rest = quote :: (body ++ quote :: rest) := by
  simp [enclose]

theorem enclose_three (quote : Char) (body rest : List Char) :
    (enclose [quote, quote, quote] body).toList ++ rest =
      quote :: quote :: quote :: (body ++ quote :: quote :: quote :: rest) := by
  simp [enclose]

theorem escape_append_ne (chars rest : List Char) (other : c ≠ '"') (more : List Char) :
    chars.flatMap escape ++ '"' :: c :: rest ≠ '"' :: '"' :: more := by
  cases chars with
  | nil => simp [other]
  | cons first chars =>
      obtain ⟨head, tail, parts, different, -⟩ := (escaped first).first
      simp [parts, different]

theorem readText_double (one : ∀ more, rest ≠ '"' :: '"' :: more) :
    readText ('"' :: rest) =
      (readEscaped rest).map fun (text, rest) => (String.ofList text, rest) := by
  simp only [readText]

theorem readText_single (one : ∀ more, rest ≠ '\'' :: '\'' :: more) :
    readText ('\'' :: rest) =
      (readLiteral rest).map fun (text, rest) => (String.ofList text, rest) := by
  simp only [readText]

theorem readText_escape (chars rest : List Char) (other : stop ≠ '"') :
    readText ((enclose ['"'] (chars.flatMap escape)).toList ++ stop :: rest) =
      some (String.ofList chars, stop :: rest) := by
  rw [enclose_one, readText_double (escape_append_ne chars rest other), readEscaped_escape]
  rfl

theorem readText_literal (plain : ∀ c ∈ chars, isPlain c = true) (quote : '\'' ∉ chars)
    (other : stop ≠ '\'') :
    readText ((enclose ['\''] chars).toList ++ stop :: rest) =
      some (String.ofList chars, stop :: rest) := by
  have one : ∀ more, chars ++ '\'' :: stop :: rest ≠ '\'' :: '\'' :: more := by
    intro more same
    cases chars with
    | nil => exact absurd (List.cons.inj (List.cons.inj same).2).1 other
    | cons c chars => exact quote ((List.cons.inj same).1 ▸ List.mem_cons_self)
  rw [enclose_one, readText_single one, readLiteral_literal plain quote]
  rfl

theorem dropLineEnd_of_ne (lineEnd : c ≠ '\n') (noReturn : c ≠ '\r') :
    dropLineEnd (c :: rest) = c :: rest := by
  simp [dropLineEnd, lineEnd, noReturn]

theorem dropLineEnd_encloseLines {quote : Char} {text body : List Char}
    (start : '\n' ∉ text → dropLineEnd (body ++ quote :: quote :: quote :: rest) =
      body ++ quote :: quote :: quote :: rest) :
    ∃ more, (encloseLines [quote, quote, quote] text body).toList ++ rest =
        quote :: quote :: quote :: more ∧
      dropLineEnd more = body ++ quote :: quote :: quote :: rest := by
  rw [encloseLines]
  split
  · exact ⟨'\n' :: (body ++ quote :: quote :: quote :: rest), by simp, rfl⟩
  · rename_i oneLine
    exact ⟨_, enclose_three quote body rest, start oneLine⟩

theorem readText_lines (chars rest : List Char) (other : stop ≠ '"') :
    readText ((encloseLines ['"', '"', '"'] chars (escapeLines 0 chars)).toList ++ stop :: rest) =
      some (String.ofList chars, stop :: rest) := by
  have start : '\n' ∉ chars →
      dropLineEnd (escapeLines 0 chars ++ '"' :: '"' :: '"' :: stop :: rest) =
        escapeLines 0 chars ++ '"' :: '"' :: '"' :: stop :: rest := by
    intro oneLine
    cases chars with
    | nil => rfl
    | cons c chars =>
        by_cases quote : c = '"'
        · subst quote
          rfl
        · have lineEnd : c ≠ '\n' := fun same => oneLine (same ▸ List.mem_cons_self)
          obtain ⟨head, tail, parts, -, noEnd, noReturn⟩ := (escaped c).first
          rw [escapeLines]
          · rw [parts, List.append_assoc, List.cons_append, dropLineEnd_of_ne noEnd noReturn]
          · exact quote
          · exact lineEnd
  obtain ⟨more, text, body⟩ := dropLineEnd_encloseLines start
  have read := readEscapedLines_lines chars rest (Nat.zero_le 2) other
  rw [List.replicate_zero, List.nil_append, List.nil_append, ← body] at read
  rw [text, readText]
  simp only [read, Option.map_some]

theorem readText_literalLines (few : longestRun '\'' 0 chars ≤ 2)
    (plain : ∀ c ∈ chars, c = '\n' ∨ isPlain c = true) (other : stop ≠ '\'') :
    readText ((encloseLines ['\'', '\'', '\''] chars chars).toList ++ stop :: rest) =
      some (String.ofList chars, stop :: rest) := by
  have start : '\n' ∉ chars →
      dropLineEnd (chars ++ '\'' :: '\'' :: '\'' :: stop :: rest) =
        chars ++ '\'' :: '\'' :: '\'' :: stop :: rest := by
    intro oneLine
    cases chars with
    | nil => rfl
    | cons c chars =>
        have lineEnd : c ≠ '\n' := fun same => oneLine (same ▸ List.mem_cons_self)
        have noReturn : c ≠ '\r' := by
          rintro rfl
          exact absurd (plain '\r' List.mem_cons_self) (by decide)
        exact dropLineEnd_of_ne lineEnd noReturn
  obtain ⟨more, text, body⟩ := dropLineEnd_encloseLines start
  have read := readLiteralLines_lines rest few plain other
  rw [List.replicate_zero, List.nil_append, List.nil_append, ← body] at read
  rw [text, readText]
  simp only [read, Option.map_some]

theorem plain_of_harmless (harmless : chars.any isControl = false) :
    ∀ c ∈ chars, c = '\n' ∨ isPlain c = true := by
  intro c member
  by_cases lineEnd : c = '\n'
  · exact .inl lineEnd
  · have each : isControl c = false := by
      have none := List.any_eq_false.mp harmless c member
      simpa using none
    exact .inr (isPlain_of_not_isControl each lineEnd)

theorem plain_of_oneLine (harmless : chars.any isControl = false) (oneLine : '\n' ∉ chars) :
    ∀ c ∈ chars, isPlain c = true := by
  intro c member
  rcases plain_of_harmless harmless c member with lineEnd | plain
  · exact absurd (lineEnd ▸ member) oneLine
  · exact plain

theorem readText_quote (text : String) (ends : isStop stop = true) (rest : List Char) :
    readText ((quote text).toList ++ stop :: rest) = some (text, stop :: rest) := by
  have double : stop ≠ '"' := ne_of_isStop ends (by decide)
  have single : stop ≠ '\'' := ne_of_isStop ends (by decide)
  rw [quote]
  simp only [Bool.not_eq_true', decide_eq_false_iff_not]
  split
  · rw [readText_escape _ _ double, String.ofList_toList]
  · split
    · rename_i _ simple
      rw [readText_literal (plain_of_oneLine simple.1 simple.2.2) simple.2.1 single,
        String.ofList_toList]
    · split
      · rw [readText_lines _ _ double, String.ofList_toList]
      · split
        · rename_i _ simple
          rw [readText_literalLines simple.2 (plain_of_harmless simple.1) single,
            String.ofList_toList]
        · split
          · rw [readText_lines _ _ double, String.ofList_toList]
          · rw [readText_escape _ _ double, String.ofList_toList]

theorem readScalar_of_readText {text : String} (read : readText chars = some (text, rest)) :
    readScalar chars = some (.text text, rest) := by
  cases chars with
  | nil => cases read
  | cons c chars =>
      by_cases double : c = '"'
      · subst double
        rw [readScalar, read]
        rfl
      · by_cases single : c = '\''
        · subst single
          rw [readScalar, read]
          rfl
        · simp [readText, double, single] at read

theorem readScalar_quote (text : String) (ends : isStop stop = true) (rest : List Char) :
    readScalar ((quote text).toList ++ stop :: rest) = some (.text text, stop :: rest) :=
  readScalar_of_readText (readText_quote text ends rest)

theorem ne_of_isBare (bare : isBare c = true) {other : Char} (different : isBare other = false) :
    c ≠ other := by
  rintro rfl
  rw [bare] at different
  cases different

theorem takeWhile_isBare (bare : ∀ c ∈ chars, isBare c = true) (beyond : isBare c = false)
    (rest : List Char) :
    (chars ++ c :: rest).takeWhile isBare = chars ∧
      (chars ++ c :: rest).dropWhile isBare = c :: rest := by
  induction chars with
  | nil => simp [beyond]
  | cons first chars ih =>
      have later := ih fun d member => bare d (List.mem_cons_of_mem first member)
      simp [bare first List.mem_cons_self, later]

theorem readName_bare (some : chars ≠ []) (bare : ∀ c ∈ chars, isBare c = true)
    (beyond : isBare c = false) :
    readName (chars ++ c :: rest) = .some (String.ofList chars, c :: rest) := by
  obtain ⟨taken, left⟩ := takeWhile_isBare bare beyond rest
  cases chars with
  | nil => exact absurd rfl some
  | cons first chars =>
      have head := bare first List.mem_cons_self
      have quotes : first ≠ '"' ∧ first ≠ '\'' :=
        ⟨ne_of_isBare head (by decide), ne_of_isBare head (by decide)⟩
      rw [List.cons_append] at taken left ⊢
      rw [readName]
      · rw [taken, left]
      · exact fun _ same => quotes.1 (List.cons.inj same).1
      · exact fun _ same => quotes.2 (List.cons.inj same).1

theorem readName_escape (name : String) (rest : List Char) :
    readName ((enclose ['"'] (name.toList.flatMap escape)).toList ++ rest) = some (name, rest) := by
  simp [enclose_one, readName, readEscaped_escape]

theorem readName_literal {name : String} (plain : ∀ c ∈ name.toList, isPlain c = true)
    (quote : '\'' ∉ name.toList) :
    readName ((enclose ['\''] name.toList).toList ++ rest) = some (name, rest) := by
  simp [enclose_one, readName, readLiteral_literal plain quote]

theorem readName_quoteName (name : String) (beyond : isBare c = false) (rest : List Char) :
    readName ((quoteName name).toList ++ c :: rest) = some (name, c :: rest) := by
  rw [quoteName]
  simp only [Bool.not_eq_true', Bool.or_eq_false_iff, decide_eq_false_iff_not]
  split
  · rename_i bare
    simp only [isBareName, Bool.and_eq_true, Bool.not_eq_true', List.isEmpty_eq_false_iff,
      List.all_eq_true] at bare
    rw [readName_bare bare.1 bare.2 beyond, String.ofList_toList]
  · split
    · exact readName_escape name _
    · split
      · rename_i _ simple
        exact readName_literal (plain_of_oneLine simple.1.1 simple.1.2) simple.2
      · exact readName_escape name _

end DesignTokens.Toml
