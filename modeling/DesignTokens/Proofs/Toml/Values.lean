import DesignTokens.Proofs.Toml.Layout
import DesignTokens.Proofs.Toml.Number

/-!
Written values are read back, up to what ends them. An array and an inline table are read item by
item, each of which is shorter than the whole, so the bound on the work of the reader suffices.
-/

namespace DesignTokens.Toml

variable {c stop : Char} {chars more rest : List Char} {name : String} {names : List String}
  {value item : Document} {items : List Document} {entries : Entries Document}
  {fuel depth bound : Nat}

inductive Plain : Document → Prop
  | text (s : String) : Plain (.text s)
  | bool (value : Bool) : Plain (.bool value)
  | number {n : Number} (signed : n.Signed) : Plain (.number n)

theorem readScalar_write (plain : Plain value) (ends : isStop stop = true) (rest : List Char) :
    readScalar ((write value).toList ++ stop :: rest) = some (value, stop :: rest) := by
  cases plain with
  | text s => exact readScalar_quote s ends rest
  | bool value => cases value <;> rfl
  | number signed => exact readScalar_number signed ends

def isLead (c : Char) : Bool :=
  c = ' ' || c = '\t' || c = '\n' || c = '\r' || c = '#' || c = ']' || c = '\x7d'

theorem readScalar_eq_none (other : isLead c = true ∨ c = '[' ∨ c = '\x7b') (rest : List Char) :
    readScalar (c :: rest) = none := by
  simp only [isLead, Bool.or_eq_true, decide_eq_true_eq, or_assoc] at other
  rcases other with rfl | rfl | rfl | rfl | rfl | rfl | rfl | rfl | rfl <;>
  simp [readScalar, readMoment, readDate, readTime, readField, readNumber, readSign, readDecimal,
    readWhole, readDigits]

theorem skipTabs_blank (rest : List Char) : skipTabs (' ' :: rest) = skipTabs rest := rfl

theorem skipTabs_of_not_isTab (other : isTab c = false) : skipTabs (c :: rest) = c :: rest := by
  simp [skipTabs, other]

theorem quoteName_first (name : String) : ∃ first more, (quoteName name).toList = first :: more ∧
    (isBare first = true ∨ first = '"' ∨ first = '\'') := by
  rw [quoteName]
  split
  · rename_i bare
    simp only [isBareName, Bool.and_eq_true, Bool.not_eq_true', List.isEmpty_eq_false_iff,
      List.all_eq_true] at bare
    obtain ⟨first, more, chars⟩ := List.exists_cons_of_ne_nil bare.1
    exact ⟨first, more, chars, .inl (bare.2 first (chars ▸ List.mem_cons_self))⟩
  · split
    · exact ⟨'"', _, by rw [enclose, String.toList_ofList]; rfl, .inr (.inl rfl)⟩
    · split
      · exact ⟨'\'', _, by rw [enclose, String.toList_ofList]; rfl, .inr (.inr rfl)⟩
      · exact ⟨'"', _, by rw [enclose, String.toList_ofList]; rfl, .inr (.inl rfl)⟩

theorem isTab_of_isBare (bare : isBare c = true) : isTab c = false := by
  rw [isTab, decide_eq_false (ne_of_isBare bare (by decide)),
    decide_eq_false (ne_of_isBare bare (by decide))]
  rfl

theorem quoteName_start (name : String) : ∃ first more, (quoteName name).toList = first :: more ∧
    isTab first = false ∧ first ≠ '#' ∧ first ≠ '\n' ∧ first ≠ '\r' ∧ first ≠ '[' := by
  obtain ⟨first, more, chars, bare | rfl | rfl⟩ := quoteName_first name
  · exact ⟨first, more, chars, isTab_of_isBare bare, ne_of_isBare bare (by decide),
      ne_of_isBare bare (by decide), ne_of_isBare bare (by decide), ne_of_isBare bare (by decide)⟩
  · exact ⟨_, more, chars, by decide⟩
  · exact ⟨_, more, chars, by decide⟩

theorem skipTabs_quoteName (name : String) (rest : List Char) :
    skipTabs ((quoteName name).toList ++ rest) = (quoteName name).toList ++ rest := by
  obtain ⟨first, more, chars, tab, -⟩ := quoteName_start name
  rw [chars, List.cons_append, skipTabs_of_not_isTab tab]

theorem keyText_singleton (name : String) : keyText [name] = quoteName name := rfl

theorem keyText_cons (name next : String) (more : List String) :
    (keyText (name :: next :: more)).toList =
      (quoteName name).toList ++ '.' :: (keyText (next :: more)).toList := by
  simp [keyText, String.intercalate_cons_cons]

theorem readKey_keyText (named : names ≠ []) (few : names.length ≤ bound) (beyond : isBare c = false)
    (last : ∀ more, skipTabs (c :: rest) ≠ '.' :: more) :
    readKey bound ((keyText names).toList ++ c :: rest) = some (names, skipTabs (c :: rest)) := by
  induction names generalizing bound with
  | nil => exact absurd rfl named
  | cons name more ih =>
      obtain ⟨less, rfl⟩ : ∃ less, bound = less + 1 := ⟨bound - 1, by simp at few; omega⟩
      cases more with
      | nil =>
          rw [keyText_singleton, readKey, skipTabs_quoteName, readName_quoteName name beyond]
          simp only [Option.bind_eq_bind, Option.bind_some]
      | cons next more =>
          have behind := ih (List.cons_ne_nil next more) (Nat.le_of_succ_le_succ few)
          rw [keyText_cons, List.append_assoc, List.cons_append, readKey, skipTabs_quoteName,
            readName_quoteName name (by decide)]
          simp [skipTabs, isTab, behind]

theorem readKey_blank (bound : Nat) (chars : List Char) :
    readKey bound (' ' :: chars) = readKey bound chars := by
  cases bound with
  | zero => rfl
  | succ bound => rw [readKey, readKey, skipTabs_blank]

theorem skipTabs_of_not_isLead (start : isLead c = false) : skipTabs (c :: rest) = c :: rest := by
  simp only [isLead, Bool.or_eq_false_iff, decide_eq_false_iff_not] at start
  exact skipTabs_of_not_isTab (by simp [isTab, start])

theorem skipSpace_of_not_isLead (start : isLead c = false) (rest : List Char) :
    skipSpace false (c :: rest) = c :: rest := by
  simp only [isLead, Bool.or_eq_false_iff, decide_eq_false_iff_not] at start
  simp [skipSpace, isTab, start]

/-- The text of a value is read as the value, whatever it is followed by. -/
structure ReadsBack (depth : Nat) (value : Document) : Prop where
  start : ∃ first more, (write value).toList = first :: more ∧ isLead first = false
  read : ∀ fuel stop rest, 2 * (write value).toList.length ≤ fuel → isStop stop = true →
    readValue fuel depth ((write value).toList ++ stop :: rest) = some (value, stop :: rest)

theorem ReadsBack.skipTabs (back : ReadsBack depth value) (rest : List Char) :
    skipTabs ((write value).toList ++ rest) = (write value).toList ++ rest := by
  obtain ⟨first, more, text, start⟩ := back.start
  rw [text, List.cons_append, skipTabs_of_not_isLead start]

theorem ReadsBack.skipSpace (back : ReadsBack depth value) (rest : List Char) :
    skipSpace false ((write value).toList ++ rest) = (write value).toList ++ rest := by
  obtain ⟨first, more, text, start⟩ := back.start
  rw [text, List.cons_append, skipSpace_of_not_isLead start]

theorem readsBack_of_plain (plain : Plain value) (depth : Nat) : ReadsBack depth value := by
  have start : ∃ first more, (write value).toList = first :: more ∧
      ¬ (isLead first = true ∨ first = '[' ∨ first = '\x7b') := by
    have read := readScalar_write plain (by decide : isStop '\n' = true) []
    cases text : (write value).toList with
    | nil =>
        rw [text, List.nil_append, readScalar_eq_none (by decide)] at read
        cases read
    | cons first more =>
        refine ⟨first, more, rfl, fun other => ?_⟩
        rw [text, List.cons_append, readScalar_eq_none other] at read
        cases read
  obtain ⟨first, more, text, other⟩ := start
  obtain ⟨lead, bracket, brace⟩ : isLead first ≠ true ∧ first ≠ '[' ∧ first ≠ '\x7b' := by
    simpa only [not_or] using other
  refine ⟨⟨first, more, text, Bool.eq_false_of_not_eq_true lead⟩, fun fuel stop rest enough ends => ?_⟩
  have read := readScalar_write plain ends rest
  rw [text, List.length_cons] at enough
  obtain ⟨less, rfl⟩ : ∃ less, fuel = less + 1 := ⟨fuel - 1, by omega⟩
  rw [text, List.cons_append] at read ⊢
  rw [readValue, read]
  · exact fun _ same => bracket (List.cons.inj same).1
  · exact fun _ same => brace (List.cons.inj same).1

theorem readItems_congr (same : skipSpace false chars = skipSpace false more) (fuel depth : Nat) :
    readItems fuel depth chars = readItems fuel depth more := by
  cases fuel with
  | zero => rw [readItems, readItems]
  | succ fuel => rw [readItems, readItems, same]

theorem readItems_close (fuel depth : Nat) (rest : List Char) :
    readItems (fuel + 1) depth (']' :: rest) = some ([], rest) := by
  have skipped : skipSpace false (']' :: rest) = ']' :: rest := rfl
  simp [readItems, skipped]

theorem readItems_last (back : ReadsBack depth item)
    (enough : 2 * (write item).toList.length ≤ fuel) (rest : List Char) :
    readItems (fuel + 1) depth ((write item).toList ++ ']' :: rest) = some ([item], rest) := by
  have read := back.read fuel ']' rest enough (by decide)
  have close : skipSpace false (']' :: rest) = ']' :: rest := rfl
  have skipped := back.skipSpace (']' :: rest)
  obtain ⟨first, more, text, start⟩ := back.start
  have bracket : first ≠ ']' := by
    rintro rfl
    cases start
  rw [text, List.cons_append] at read skipped ⊢
  rw [readItems, skipped]
  simp [read, close, bracket]

theorem readItems_next (back : ReadsBack depth item)
    (enough : 2 * (write item).toList.length ≤ fuel)
    (later : readItems fuel depth rest = some (items, more)) :
    readItems (fuel + 1) depth ((write item).toList ++ ',' :: rest) = some (item :: items, more) := by
  have read := back.read fuel ',' rest enough (by decide)
  have comma : skipSpace false (',' :: rest) = ',' :: rest := rfl
  have skipped := back.skipSpace (',' :: rest)
  obtain ⟨first, tail, text, start⟩ := back.start
  have bracket : first ≠ ']' := by
    rintro rfl
    cases start
  rw [text, List.cons_append] at read skipped ⊢
  rw [readItems, skipped]
  simp [read, comma, bracket, later]

theorem readItems_writeItems (each : ∀ item ∈ items, ReadsBack depth item)
    (enough : 2 * (writeItems items).toList.length + 1 ≤ fuel) (rest : List Char) :
    readItems fuel depth ('\n' :: ((writeItems items).toList ++ ']' :: rest)) = some (items, rest) := by
  induction items generalizing fuel with
  | nil =>
      obtain ⟨less, rfl⟩ : ∃ less, fuel = less + 1 := ⟨fuel - 1, by omega⟩
      have skipped : skipSpace false ('\n' :: ']' :: rest) = skipSpace false (']' :: rest) := rfl
      exact (readItems_congr skipped _ _).trans (readItems_close less depth rest)
  | cons item others ih =>
      obtain ⟨first, later⟩ := List.forall_mem_cons.mp each
      have text : (writeItems (item :: others)).toList ++ ']' :: rest =
          ' ' :: ' ' :: ' ' :: ' ' :: ((write item).toList ++
            ',' :: '\n' :: ((writeItems others).toList ++ ']' :: rest)) := by
        simp only [writeItems, String.toList_append, List.append_assoc]
        rfl
      have size := congrArg List.length text
      simp only [List.length_append, List.length_cons] at size
      obtain ⟨less, rfl⟩ : ∃ less, fuel = less + 1 := ⟨fuel - 1, by omega⟩
      have read := readItems_next first (by omega : _ ≤ less) (ih later (by omega))
      have skipped : ∀ chars, skipSpace false ('\n' :: ' ' :: ' ' :: ' ' :: ' ' :: chars) =
          skipSpace false chars := fun _ => rfl
      rw [text, readItems_congr (skipped _), read]

theorem readPair_of_readsBack (back : ReadsBack depth value)
    (enough : 2 * (write value).toList.length + 1 ≤ fuel) (ends : isStop stop = true)
    (name : String) (rest : List Char) :
    readPair fuel depth ((quoteName name).toList ++
        ' ' :: '=' :: ' ' :: ((write value).toList ++ stop :: rest)) =
      some (⟨[name], value⟩, stop :: rest) := by
  obtain ⟨less, rfl⟩ : ∃ less, fuel = less + 1 := ⟨fuel - 1, by omega⟩
  have read := back.read less stop rest (by omega) ends
  have skipped := back.skipTabs (stop :: rest)
  generalize (write value).toList ++ stop :: rest = after at read skipped
  have equals : skipTabs (' ' :: '=' :: ' ' :: after) = '=' :: ' ' :: after := rfl
  have named : readKey maxDepth ((quoteName name).toList ++ ' ' :: '=' :: ' ' :: after) =
      some ([name], '=' :: ' ' :: after) := by
    rw [← keyText_singleton, ← equals]
    refine readKey_keyText (List.cons_ne_nil name []) (Nat.one_le_ofNat) (by decide) ?_
    rw [equals]
    exact fun more same => absurd (List.cons.inj same).1 (by decide)
  rw [readPair, named]
  simp only [Option.bind_eq_bind, Option.bind_some, skipTabs_blank, skipped, read]

theorem readPairs_blank (fuel depth : Nat) (chars : List Char) :
    readPairs fuel depth (' ' :: chars) = readPairs fuel depth chars := by
  cases fuel with
  | zero => rw [readPairs, readPairs]
  | succ fuel =>
      rw [readPairs, readPairs]
      cases fuel with
      | zero => rw [readPair, readPair]
      | succ fuel => rw [readPair, readPair, readKey_blank]

theorem readPairs_last (back : ReadsBack depth value)
    (enough : 2 * (write value).toList.length + 1 ≤ fuel) (name : String) (rest : List Char) :
    readPairs (fuel + 1) depth ((quoteName name).toList ++
        ' ' :: '=' :: ' ' :: ((write value).toList ++ ' ' :: '\x7d' :: rest)) =
      some ([⟨[name], value⟩], rest) := by
  have read := readPair_of_readsBack back enough (by decide : isStop ' ' = true) name ('\x7d' :: rest)
  have close : skipTabs (' ' :: '\x7d' :: rest) = '\x7d' :: rest := rfl
  rw [readPairs, read]
  simp [close]

theorem readPairs_next {pairs : List Pair} (back : ReadsBack depth value)
    (enough : 2 * (write value).toList.length + 1 ≤ fuel) (name : String)
    (later : readPairs fuel depth chars = some (pairs, rest)) :
    readPairs (fuel + 1) depth ((quoteName name).toList ++
        ' ' :: '=' :: ' ' :: ((write value).toList ++ ',' :: ' ' :: chars)) =
      some (⟨[name], value⟩ :: pairs, rest) := by
  have read := readPair_of_readsBack back enough (by decide : isStop ',' = true) name (' ' :: chars)
  have comma : skipTabs (',' :: ' ' :: chars) = ',' :: ' ' :: chars := rfl
  rw [readPairs, read]
  simp [comma, readPairs_blank, later]

theorem readPairs_writeEntries (filled : entries ≠ [])
    (each : ∀ entry ∈ entries, ReadsBack depth entry.2)
    (enough : 2 * (writeEntries entries).toList.length ≤ fuel) (rest : List Char) :
    readPairs fuel depth ((writeEntries entries).toList ++ ' ' :: '\x7d' :: rest) =
      some (entries.map fun entry => ⟨[entry.1], entry.2⟩, rest) := by
  induction entries generalizing fuel with
  | nil => exact absurd rfl filled
  | cons entry others ih =>
      obtain ⟨name, value⟩ := entry
      obtain ⟨first, later⟩ := List.forall_mem_cons.mp each
      cases others with
      | nil =>
          have text : (writeEntries [(name, value)]).toList ++ ' ' :: '\x7d' :: rest =
              (quoteName name).toList ++
                ' ' :: '=' :: ' ' :: ((write value).toList ++ ' ' :: '\x7d' :: rest) := by
            simp only [writeEntries, String.toList_append, List.append_assoc]
            rfl
          have size := congrArg List.length text
          simp only [List.length_append, List.length_cons] at size
          obtain ⟨less, rfl⟩ : ∃ less, fuel = less + 1 := ⟨fuel - 1, by omega⟩
          have room : 2 * (write value).toList.length + 1 ≤ less := by omega
          rw [text]
          exact readPairs_last first room name rest
      | cons next others =>
          have text : (writeEntries ((name, value) :: next :: others)).toList ++
                ' ' :: '\x7d' :: rest =
              (quoteName name).toList ++ ' ' :: '=' :: ' ' :: ((write value).toList ++
                ',' :: ' ' :: ((writeEntries (next :: others)).toList ++ ' ' :: '\x7d' :: rest)) := by
            simp only [writeEntries, String.toList_append, List.append_assoc]
            rfl
          have size := congrArg List.length text
          simp only [List.length_append, List.length_cons] at size
          obtain ⟨less, rfl⟩ : ∃ less, fuel = less + 1 := ⟨fuel - 1, by omega⟩
          have room : 2 * (write value).toList.length + 1 ≤ less := by omega
          have behind := ih (List.cons_ne_nil next others) later (by omega : _ ≤ less)
          rw [text]
          exact readPairs_next first room name behind

theorem writeEntries_start (entry : String × Document) (others : Entries Document) :
    ∃ c more, (writeEntries (entry :: others)).toList = c :: more ∧ isTab c = false ∧ c ≠ '\x7d' := by
  have named : ∃ after, (writeEntries (entry :: others)).toList =
      (quoteName entry.1).toList ++ after := by
    cases others with
    | nil => exact ⟨_, by simp [writeEntries]; rfl⟩
    | cons next others => exact ⟨_, by simp [writeEntries]; rfl⟩
  obtain ⟨after, text⟩ := named
  obtain ⟨c, more, chars, start⟩ := quoteName_first entry.1
  rw [chars, List.cons_append] at text
  refine ⟨c, more ++ after, text, ?_⟩
  rcases start with bare | rfl | rfl
  · exact ⟨isTab_of_isBare bare, ne_of_isBare bare (by decide)⟩
  · decide
  · decide

theorem inlineTable_singletons (distinct : entries.names.Nodup) :
    inlineTable (entries.map fun entry => ⟨[entry.1], entry.2⟩) = some (.object entries) := by
  have added : addPairs [] (entries.map fun entry => ⟨[entry.1], entry.2⟩) =
      some (entries.map fun entry => (entry.1, .value entry.2)) :=
    addPairs_singletons entries distinct
  have same : entriesToDocuments (entries.map fun entry => (entry.1, .value entry.2)) = entries := by
    rw [entriesToDocuments_eq, List.map_map]
    exact List.map_id entries
  rw [inlineTable, added, Option.map_some, same]

theorem readValue_array (read : readItems fuel depth chars = some (items, rest)) :
    readValue (fuel + 1) (depth + 1) ('[' :: chars) = some (.array items, rest) := by
  rw [readValue]
  simp [read]

theorem readValue_object {pairs : List Pair} (start : isTab c = false) (brace : c ≠ '\x7d')
    (read : readPairs fuel depth (c :: chars) = some (pairs, rest))
    (table : inlineTable pairs = some value) :
    readValue (fuel + 1) (depth + 1) ('\x7b' :: ' ' :: c :: chars) = some (value, rest) := by
  rw [readValue]
  simp [skipTabs_blank, skipTabs_of_not_isTab start, brace, read, table]

theorem readsBack_array (each : ∀ item ∈ items, ReadsBack depth item) :
    ReadsBack (depth + 1) (.array items) := by
  cases items with
  | nil =>
      refine ⟨⟨'[', [']'], rfl, rfl⟩, fun fuel stop rest enough ends => ?_⟩
      have text : (write (.array [])).toList = ['[', ']'] := rfl
      rw [text] at enough ⊢
      obtain ⟨less, rfl⟩ : ∃ less, fuel = less + 2 := ⟨fuel - 2, by simp at enough; omega⟩
      exact readValue_array (readItems_close less depth (stop :: rest))
  | cons item others =>
      cases others with
      | nil =>
          have text : (write (.array [item])).toList = '[' :: ((write item).toList ++ [']']) := by
            simp [write]
          refine ⟨⟨'[', _, text, rfl⟩, fun fuel stop rest enough ends => ?_⟩
          rw [text, List.length_cons, List.length_append] at enough
          obtain ⟨less, rfl⟩ : ∃ less, fuel = less + 2 := ⟨fuel - 2, by omega⟩
          have room : 2 * (write item).toList.length ≤ less := by omega
          have read := readItems_last (List.forall_mem_singleton.mp each) room (stop :: rest)
          rw [text, List.cons_append, List.append_assoc]
          exact readValue_array read
      | cons next others =>
          have text : (write (.array (item :: next :: others))).toList =
              '[' :: '\n' :: ((writeItems (item :: next :: others)).toList ++ [']']) := by
            simp [write]
          refine ⟨⟨'[', _, text, rfl⟩, fun fuel stop rest enough ends => ?_⟩
          rw [text, List.length_cons, List.length_cons, List.length_append] at enough
          obtain ⟨less, rfl⟩ : ∃ less, fuel = less + 1 := ⟨fuel - 1, by omega⟩
          have room : 2 * (writeItems (item :: next :: others)).toList.length + 1 ≤ less := by omega
          have read := readItems_writeItems each room (stop :: rest)
          rw [text, List.cons_append, List.cons_append, List.append_assoc]
          exact readValue_array read

theorem readsBack_object (distinct : entries.names.Nodup)
    (each : ∀ entry ∈ entries, ReadsBack depth entry.2) :
    ReadsBack (depth + 1) (.object entries) := by
  cases entries with
  | nil =>
      refine ⟨⟨'\x7b', ['\x7d'], rfl, rfl⟩, fun fuel stop rest enough ends => ?_⟩
      have text : (write (.object [])).toList = ['\x7b', '\x7d'] := rfl
      have close : skipTabs ('\x7d' :: stop :: rest) = '\x7d' :: stop :: rest := rfl
      rw [text] at enough ⊢
      obtain ⟨less, rfl⟩ : ∃ less, fuel = less + 1 := ⟨fuel - 1, by simp at enough; omega⟩
      rw [List.cons_append, List.singleton_append, readValue]
      simp [close]
  | cons entry others =>
      have text : (write (.object (entry :: others))).toList =
          '\x7b' :: ' ' :: ((writeEntries (entry :: others)).toList ++ [' ', '\x7d']) := by
        simp [write]
      refine ⟨⟨'\x7b', _, text, rfl⟩, fun fuel stop rest enough ends => ?_⟩
      rw [text, List.length_cons, List.length_cons, List.length_append] at enough
      obtain ⟨less, rfl⟩ : ∃ less, fuel = less + 1 := ⟨fuel - 1, by omega⟩
      have room : 2 * (writeEntries (entry :: others)).toList.length ≤ less := by omega
      have read := readPairs_writeEntries (List.cons_ne_nil entry others) each room (stop :: rest)
      obtain ⟨c, more, chars, tab, brace⟩ := writeEntries_start entry others
      rw [text, List.cons_append, List.cons_append, List.append_assoc]
      rw [chars, List.cons_append] at read ⊢
      exact readValue_object tab brace read (inlineTable_singletons distinct)

/-- Every document that can be written is read back from its text. -/
theorem readsBack_of_writable (writable : value.Writable depth) : ReadsBack depth value := by
  induction writable with
  | text s => exact readsBack_of_plain (.text s) _
  | bool value => exact readsBack_of_plain (.bool value) _
  | number signed => exact readsBack_of_plain (.number signed) _
  | array each ih => exact readsBack_array ih
  | object distinct each ih => exact readsBack_object distinct ih

end DesignTokens.Toml
