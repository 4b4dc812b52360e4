import DesignTokens.Proofs.Toml.Values

/-!
Written statements are read back. What a text starts with says which statement comes next, so a text
is followed from its end: a statement in front of a text that is read as a sheet is read as that
sheet with the statement in front.
-/

namespace DesignTokens.Toml

variable {chars rest : List Char} {path : List String}
  {value : Document} {pair : Pair} {pairs : List Pair} {sheet : Sheet} {fuel depth : Nat}

structure Short (path : List String) : Prop where
  named : path ≠ []
  few : path.length ≤ maxDepth

structure Pair.Written (pair : Pair) : Prop where
  key : ∃ name, pair.key = [name]
  value : pair.value.Writable maxDepth

theorem Pair.Written.text (written : pair.Written) :
    ∃ name, pair.key = [name] ∧ ∀ rest, (pairText pair).toList ++ rest =
      (quoteName name).toList ++
        ' ' :: '=' :: ' ' :: ((write pair.value).toList ++ '\n' :: rest) := by
  obtain ⟨name, key⟩ := written.key
  refine ⟨name, key, fun rest => ?_⟩
  simp [pairText, key, keyText_singleton]

theorem readPair_pairText (written : pair.Written)
    (enough : 2 * (pairText pair).toList.length ≤ fuel + 1) (rest : List Char) :
    readPair fuel maxDepth ((pairText pair).toList ++ rest) = some (pair, '\n' :: rest) := by
  obtain ⟨key, value⟩ := pair
  obtain ⟨name, rfl, text⟩ := written.text
  have size := congrArg List.length (text [])
  have room : 2 * (write value).toList.length + 1 ≤ fuel := by
    simp at size
    omega
  rw [text]
  exact readPair_of_readsBack (readsBack_of_writable written.value) room (by decide) name rest

/-- Whatever bound on the work is large enough, the text is read as the sheet. -/
def Reads (chars : List Char) (sheet : Sheet) : Prop :=
  ∀ fuel, 2 * chars.length + 2 ≤ fuel → readLines fuel chars = some sheet

theorem Reads.of_succ
    (step : ∀ fuel, 2 * chars.length + 1 ≤ fuel → readLines (fuel + 1) chars = some sheet) :
    Reads chars sheet := by
  intro fuel enough
  obtain ⟨less, rfl⟩ : ∃ less, fuel = less + 1 := ⟨fuel - 1, by omega⟩
  exact step less (by omega)

theorem reads_nil : Reads [] ⟨[], []⟩ := .of_succ fun _ _ => rfl

theorem Reads.blank (later : Reads rest sheet) : Reads ('\n' :: rest) sheet := by
  refine .of_succ fun fuel enough => ?_
  rw [readLines]
  exact later fuel (by simp only [List.length_cons] at enough; omega)

theorem dropWhile_isPlain (plain : ∀ c ∈ chars, isPlain c = true) (rest : List Char) :
    (chars ++ '\n' :: rest).dropWhile isPlain = '\n' :: rest := by
  induction chars with
  | nil => rfl
  | cons first chars ih =>
      rw [List.cons_append, List.dropWhile_cons, if_pos (plain first List.mem_cons_self)]
      exact ih fun d member => plain d (List.mem_cons_of_mem first member)

theorem readLines_comment (plain : ∀ c ∈ chars, isPlain c = true) (fuel : Nat) (rest : List Char) :
    readLines (fuel + 1) ('#' :: (chars ++ '\n' :: rest)) = readLines fuel rest := by
  have beyond : endLine ('#' :: (chars ++ '\n' :: rest)) = some rest := by
    rw [endLine, skipTabs_of_not_isTab (by decide)]
    simp only [dropWhile_isPlain plain]
  rw [readLines]
  simp only [skipTabs_of_not_isTab (by decide : isTab '#' = false), beyond, Option.bind_eq_bind,
    Option.bind_some]

theorem Reads.comment (plain : ∀ c ∈ chars, isPlain c = true) (later : Reads rest sheet) :
    Reads ('#' :: (chars ++ '\n' :: rest)) sheet := by
  refine .of_succ fun fuel enough => ?_
  rw [readLines_comment plain]
  exact later fuel (by simp at enough; omega)

theorem endLine_lineEnd (rest : List Char) : endLine ('\n' :: rest) = some rest := rfl

theorem readLines_of_name {first : Char} {more : List Char} (fuel : Nat)
    (start : isTab first = false ∧ first ≠ '#' ∧ first ≠ '\n' ∧ first ≠ '\r' ∧ first ≠ '[') :
    readLines (fuel + 1) (first :: more) = (do
      let (pair, rest) ← readPair fuel maxDepth (first :: more)
      let sheet ← readLines fuel (← endLine rest)
      some { sheet with top := pair :: sheet.top }) := by
  obtain ⟨tab, comment, lineEnd, noReturn, bracket⟩ := start
  rw [readLines, skipTabs_of_not_isTab tab]
  split
  · cases ‹_ :: _ = []›
  · exact absurd (List.cons.inj ‹_›).1 comment
  · exact absurd (List.cons.inj ‹_›).1 lineEnd
  · exact absurd (List.cons.inj ‹_›).1 noReturn
  · exact absurd (List.cons.inj ‹_›).1 bracket
  · exact absurd (List.cons.inj ‹_›).1 bracket
  · rfl

theorem Reads.pairs_cons (written : pair.Written) (later : Reads rest sheet) :
    Reads ((pairText pair).toList ++ rest) { sheet with top := pair :: sheet.top } := by
  refine .of_succ fun fuel enough => ?_
  obtain ⟨name, -, text⟩ := written.text
  obtain ⟨first, more, chars, start⟩ := quoteName_start name
  rw [List.length_append] at enough
  have read := readPair_pairText written (by omega : _ ≤ fuel + 1) rest
  have behind := later fuel (by
    have size := congrArg List.length (text rest)
    simp at size enough
    omega)
  rw [text, chars, List.cons_append] at read ⊢
  rw [readLines_of_name _ start, read]
  simp only [Option.bind_eq_bind, Option.bind_some, endLine_lineEnd, behind]

theorem Reads.block (written : ∀ pair ∈ pairs, pair.Written) (later : Reads rest sheet) :
    Reads ((String.join (pairs.map pairText)).toList ++ rest)
      { sheet with top := pairs ++ sheet.top } := by
  induction pairs with
  | nil => exact later
  | cons pair pairs ih =>
      obtain ⟨first, others⟩ := List.forall_mem_cons.mp written
      rw [List.map_cons, String.join_cons, String.toList_append, List.append_assoc]
      exact (ih others).pairs_cons first

theorem readHeader_table (short : Short path) (rest : List Char) :
    readHeader false ((keyText path).toList ++ ']' :: rest) = some (.table path, rest) := by
  have last : ∀ more, skipTabs (']' :: rest) ≠ '.' :: more :=
    fun more same => absurd (List.cons.inj same).1 (by decide)
  rw [readHeader, readKey_keyText short.named short.few (by decide) last,
    skipTabs_of_not_isTab (by decide)]
  rfl

theorem readHeader_element (short : Short path) (rest : List Char) :
    readHeader true ((keyText path).toList ++ ']' :: ']' :: rest) = some (.element path, rest) := by
  have last : ∀ more, skipTabs (']' :: ']' :: rest) ≠ '.' :: more :=
    fun more same => absurd (List.cons.inj same).1 (by decide)
  rw [readHeader, readKey_keyText short.named short.few (by decide) last,
    skipTabs_of_not_isTab (by decide)]
  rfl

theorem keyText_start (named : path ≠ []) :
    ∃ first more, (keyText path).toList = first :: more ∧ first ≠ '[' := by
  cases path with
  | nil => exact absurd rfl named
  | cons name rest =>
      obtain ⟨first, more, chars, -, -, -, -, bracket⟩ := quoteName_start name
      cases rest with
      | nil => exact ⟨first, more, chars, bracket⟩
      | cons next rest =>
          refine ⟨first, more ++ '.' :: (keyText (next :: rest)).toList, ?_, bracket⟩
          rw [keyText_cons, chars, List.cons_append]

theorem Reads.table (short : Short path) (later : Reads rest sheet) :
    Reads ((headerText (.table path)).toList ++ rest)
      ⟨[], ⟨.table path, sheet.top⟩ :: sheet.sections⟩ := by
  refine .of_succ fun fuel enough => ?_
  have text : (headerText (.table path)).toList ++ rest =
      '[' :: ((keyText path).toList ++ ']' :: '\n' :: rest) := by
    simp [headerText]
  have behind := later fuel (by rw [text] at enough; simp at enough; omega)
  have read := readHeader_table short ('\n' :: rest)
  obtain ⟨first, more, chars, bracket⟩ := keyText_start short.named
  rw [chars, List.cons_append] at read
  rw [text, chars, List.cons_append, readLines, skipTabs_of_not_isTab (by decide)]
  split
  · cases ‹_ :: _ = []›
  · exact absurd (List.cons.inj ‹_›).1 (by decide)
  · exact absurd (List.cons.inj ‹_›).1 (by decide)
  · exact absurd (List.cons.inj ‹_›).1 (by decide)
  · exact absurd (List.cons.inj (List.cons.inj ‹_›).2).1 bracket
  · cases ‹ '[' :: _ = '[' :: _›
    simp only [read, Option.bind_eq_bind, Option.bind_some, endLine_lineEnd, behind]
  · rename_i other
    exact absurd rfl (other _)

theorem Reads.element (short : Short path) (later : Reads rest sheet) :
    Reads ((headerText (.element path)).toList ++ rest)
      ⟨[], ⟨.element path, sheet.top⟩ :: sheet.sections⟩ := by
  refine .of_succ fun fuel enough => ?_
  have text : (headerText (.element path)).toList ++ rest =
      '[' :: '[' :: ((keyText path).toList ++ ']' :: ']' :: '\n' :: rest) := by
    simp [headerText]
  have behind := later fuel (by rw [text] at enough; simp at enough; omega)
  have read := readHeader_element short ('\n' :: rest)
  rw [text, readLines, skipTabs_of_not_isTab (by decide)]
  simp only [read, Option.bind_eq_bind, Option.bind_some, endLine_lineEnd, behind]

theorem Reads.header {header : Header} (short : Short header.place) (later : Reads rest sheet) :
    Reads ((headerText header).toList ++ rest) ⟨[], ⟨header, sheet.top⟩ :: sheet.sections⟩ := by
  cases header with
  | table path => exact later.table short
  | element path => exact later.element short

structure Section.Written (part : Section) : Prop where
  short : Short part.header.place
  pairs : ∀ pair ∈ part.pairs, pair.Written

theorem Reads.section {part : Section} {sections : List Section} (written : part.Written)
    (later : Reads rest ⟨[], sections⟩) :
    Reads ((sectionText part).toList ++ rest) ⟨[], part :: sections⟩ := by
  have lines := (later.block written.pairs).header written.short
  rw [sectionText, String.toList_append, List.append_assoc]
  simpa using lines

structure Sheet.Written (sheet : Sheet) : Prop where
  top : ∀ pair ∈ sheet.top, pair.Written
  sections : ∀ part ∈ sheet.sections, part.Written

theorem reads_sections {sections : List Section} (written : ∀ part ∈ sections, part.Written) :
    Reads (String.intercalate "\n" (sections.map sectionText)).toList ⟨[], sections⟩ := by
  induction sections with
  | nil => exact reads_nil
  | cons part sections ih =>
      obtain ⟨first, others⟩ := List.forall_mem_cons.mp written
      cases sections with
      | nil =>
          have alone := reads_nil.section first
          rwa [List.append_nil] at alone
      | cons next sections =>
          have lines := (ih others).blank.section first
          simpa [String.intercalate_cons_cons] using lines

/-- The text of a sheet is read as the sheet. -/
theorem reads_text (written : sheet.Written) : Reads sheet.text.toList sheet := by
  obtain ⟨top, sections⟩ := sheet
  have behind := reads_sections written.sections
  cases top with
  | nil => exact behind
  | cons pair top =>
      simp only [Sheet.text]
      cases sections with
      | nil =>
          have alone := reads_nil.block written.top
          simpa using alone
      | cons part sections =>
          have lines := behind.blank.block written.top
          simpa [String.intercalate_cons_cons] using lines

theorem written_plainPairs {entries : Entries Document}
    (each : ∀ entry ∈ entries, Document.Writable depth entry.2) (few : depth ≤ maxDepth) :
    ∀ pair ∈ plainPairs entries, pair.Written := by
  rw [plainPairs_eq, List.forall_mem_map]
  intro entry member
  have present := (List.mem_filter.mp member).1
  exact ⟨⟨entry.1, rfl⟩, (each entry present).mono few⟩

theorem mem_sectionsAt_of_below {entries : Entries Document} {part : Section}
    (member : part ∈ sectionsBelow path entries) : part ∈ sectionsAt path (.object entries) := by
  by_cases headless : entries ≠ [] ∧ plainPairs entries = []
  · rwa [sectionsAt_headless path headless.1 headless.2]
  · rw [sectionsAt_headed path (headed_of_not_headless headless)]
    exact List.mem_cons_of_mem _ member

theorem written_sectionsBelow {entries : Entries Document}
    (each : ∀ entry ∈ entries, ∀ part ∈ sectionsAt (path ++ [entry.1]) entry.2, part.Written) :
    ∀ part ∈ sectionsBelow path entries, part.Written := by
  induction entries with
  | nil => exact List.forall_mem_nil _
  | cons entry rest ih =>
      obtain ⟨first, others⟩ := List.forall_mem_cons.mp each
      rw [sectionsBelow]
      exact List.forall_mem_append.mpr ⟨first, ih others⟩

theorem written_elementsAt {items : List Document} (short : Short path)
    (each : ∀ item ∈ items, item.Writable depth) (few : depth ≤ maxDepth)
    (below : ∀ item ∈ items, ∀ part ∈ sectionsAt path item, part.Written) :
    ∀ part ∈ elementsAt path items, part.Written := by
  induction items with
  | nil => exact List.forall_mem_nil _
  | cons item rest ih =>
      obtain ⟨writable, others⟩ := List.forall_mem_cons.mp each
      obtain ⟨first, later⟩ := List.forall_mem_cons.mp below
      cases writable with
      | object distinct held =>
          rw [elementsAt, List.forall_mem_cons, List.forall_mem_append]
          exact ⟨⟨short, written_plainPairs held (by omega)⟩,
            fun part member => first part (mem_sectionsAt_of_below member), ih others later⟩
      | _ => exact ih others later

theorem written_sectionsAt (writable : value.Writable depth) (named : path ≠ [])
    (few : path.length + depth ≤ maxDepth + 1) : ∀ part ∈ sectionsAt path value, part.Written := by
  have proper := List.length_pos_of_ne_nil named
  induction writable generalizing path with
  | text s => exact List.forall_mem_nil _
  | bool value => exact List.forall_mem_nil _
  | number signed => exact List.forall_mem_nil _
  | @array depth items each ih =>
      rw [sectionsAt]
      split
      · refine written_elementsAt ⟨named, by omega⟩ each (by omega) fun item member => ?_
        exact ih item member named (by omega) proper
      · exact List.forall_mem_nil _
  | @object depth entries distinct each ih =>
      have below : ∀ part ∈ sectionsBelow path entries, part.Written := by
        apply written_sectionsBelow
        intro entry member
        refine ih entry member (List.append_ne_nil_of_left_ne_nil named _) ?_ ?_
        · rw [List.length_append, List.length_singleton]
          omega
        · simp
      by_cases headless : entries ≠ [] ∧ plainPairs entries = []
      · rwa [sectionsAt_headless path headless.1 headless.2]
      · rw [sectionsAt_headed path (headed_of_not_headless headless), List.forall_mem_cons]
        exact ⟨⟨⟨named, by simp only [Header.place]; omega⟩, written_plainPairs each (by omega)⟩, below⟩

theorem written_ofEntries {entries : Entries Document}
    (writable : (Document.object entries).Writable depth) (few : depth ≤ maxDepth + 1) :
    (Sheet.ofEntries entries).Written := by
  cases writable with
  | object distinct each =>
      refine ⟨written_plainPairs each (by omega), written_sectionsBelow fun entry member => ?_⟩
      exact written_sectionsAt (each entry member) (List.cons_ne_nil _ _) (by simp; omega)

theorem readSheet_of_comment {text : String} (comment : text.toList = '#' :: chars) :
    readSheet text = readLines (2 * (chars.length + 1) + 2) ('#' :: chars) := by
  rw [readSheet, comment]
  rfl

theorem read_of_reads {text : String} (comment : text.toList = '#' :: chars)
    (reads : Reads ('#' :: chars) sheet) : read text = sheet.toDocument := by
  have found := reads (2 * (chars.length + 1) + 2) (Nat.le_refl _)
  rw [read, readSheet_of_comment comment, found, Option.bind_some]

theorem reads_ofEntries {entries : Entries Document}
    (writable : (Document.object entries).Writable depth) (few : depth ≤ maxDepth + 1) :
    Reads (Sheet.ofEntries entries).text.toList (Sheet.ofEntries entries) :=
  reads_text (written_ofEntries writable few)

end DesignTokens.Toml
