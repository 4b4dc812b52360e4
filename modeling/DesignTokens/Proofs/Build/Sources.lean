import DesignTokens.Proofs.Build.Reloading
import DesignTokens.Proofs.Theme.Reordered
import DesignTokens.Proofs.Toml.Bound

/-!
Theme sources, whatever a theme holds undeclared. Two lines stand before the theme, and the name of
the file in the second is written as it is: where it may stand in a comment, the text is read as the
theme alone, and where it ends the line, what follows is read as statements.
-/

namespace DesignTokens.Theme

variable {document : Document} {schema : Schema} {part : Part} {theme : Theme}

theorem Schema.depth_of_read (done : schema.read document = .ok part) :
    part.toDocument.compact.depth ≤ document.depth := by
  have reads := reads_of_read done
  induction reads with
  | text s => exact Nat.le_refl _
  | number n =>
      rw [Document.depth_compact, Part.toDocument]
      split <;> exact Nat.le_refl _
  | @record title fields entries declared extra parts each ih =>
      have below := Document.depthIn_le_iff.mp (Nat.le_refl (Document.depthIn entries))
      rw [Part.compact_toDocument_record, Document.depth, Document.depth, Nat.add_le_add_iff_right,
        Document.depthIn_le_iff, List.forall_mem_append, Document.compactEntries_eq,
        List.forall_mem_map, List.forall_mem_map, parts.rest]
      constructor
      · intro entry listed
        obtain ⟨schema, value, known, found, read⟩ := parts.found entry.1 entry.2 listed
        have here := Entries.mem_of_value? found
        exact (ih entry.1 schema value entry.2 here known read read).trans (below _ here)
      · intro entry listed
        rw [Document.depth_compact]
        exact below _ (List.mem_filter.mp listed).1

theorem depth_of_ofDocument (read : ofDocument document = .ok theme) :
    theme.toDocument.depth ≤ document.depth :=
  Schema.depth_of_read (ofDocument_eq_ok_iff.mp read).2

end DesignTokens.Theme

namespace DesignTokens.Build

open Theme Toml

variable {document doc : Document} {theme : Theme} {entries : Entries Document}
  {file text body front label : String}

theorem render_eq_ok (done : Toml.render entries = .ok body) :
    fault? (.object entries) = none ∧ body = (Sheet.ofEntries entries).text := by
  rw [Toml.render] at done
  split at done
  · cases done
  · rename_i sound
    exact ⟨sound, (Except.ok.inj done).symm⟩

theorem themeSource_eq_ok_iff : themeSource theme file = .ok text ↔
    ∃ body, Toml.render (theme.toDocument.entries?.getD []) = .ok body ∧
      text = header ++ "\n# Source: " ++ file ++ "\n\n" ++ body := by
  rw [themeSource, render]
  cases Toml.render (theme.toDocument.entries?.getD []) with
  | ok body => simp [eq_comm]
  | error fault => cases fault <;> simp

/-- Documents that have a written form, however deep they nest. -/
structure Sound (document : Document) : Prop where
  numbers : document.AllNumbers Number.Fits
  faultless : fault? document = none

theorem sound_object :
    Sound (.object entries) ↔ ∀ entry ∈ entries, Sound entry.2 := by
  constructor
  · intro sound entry listed
    exact ⟨Document.allNumbersIn_iff.mp sound.numbers entry listed,
      faultInEntries?_eq_none_iff.mp sound.faultless entry listed⟩
  · intro each
    exact ⟨Document.allNumbersIn_iff.mpr fun entry listed => (each entry listed).numbers,
      faultInEntries?_eq_none_iff.mpr fun entry listed => (each entry listed).faultless⟩

theorem sound_of_ofDocument (sound : Sound document) (read : ofDocument document = .ok theme) :
    Sound theme.toDocument := by
  refine Schema.holds_of_read (fun s => ⟨trivial, rfl⟩) ?_ (fun _ => sound_object) ?_ sound
    (ofDocument_eq_ok_iff.mp read).2
  · intro n sound
    have finite := Number.Fits.isFinite sound.numbers
    have signed := Number.signed_ofBinary64 finite
    rw [Part.toDocument, if_pos finite]
    exact ⟨signed.fits, fault?_of_writable (.number signed : Document.Writable 0 _)⟩
  · intro document sound
    exact ⟨Document.fit_compact sound.numbers, fault?_compact sound.numbers sound.faultless⟩

theorem themeSource_isOk (sound : Sound document) (read : ofDocument document = .ok theme)
    (file : String) : ∃ text, themeSource theme file = .ok text := by
  obtain ⟨entries, form⟩ := toDocument_eq_object read
  have faultless := (sound_of_ofDocument sound read).faultless
  rw [form] at faultless
  refine ⟨_, themeSource_eq_ok_iff.mpr ⟨(Sheet.ofEntries entries).text, ?_, rfl⟩⟩
  rw [form, Document.entries?, Option.getD_some, Toml.render, faultless]

theorem read_behind_comments (plain : ∀ c ∈ file.toList, isPlain c = true)
    (found : Toml.read (Sheet.ofEntries entries).text = some doc) :
    Toml.read (header ++ "\n# Source: " ++ file ++ "\n\n" ++ (Sheet.ofEntries entries).text) =
      some doc := by
  obtain ⟨sheet, statements, laid⟩ := Option.bind_eq_some_iff.mp found
  rw [read_sourced plain (reads_of_readSheet statements), laid]

theorem readTheme_of_read (found : Toml.read text = some doc) :
    readTheme .toml label text = ofDocument doc := by
  rw [readTheme, readDocument, Format.read, found]

/--
The source of a theme is read as its body alone, if the name of the file may stand in a comment. Unless
the value form nests too deep, the body is read as that form with entries moved; and from every such
document a theme is read whose value form differs in nothing but the order of entries.
-/
theorem themeSource_spec (read : ofDocument document = .ok theme) (distinct : document.Distinct)
    (fit : document.AllNumbers Number.Fits) (written : themeSource theme file = .ok text)
    (plain : ∀ c ∈ file.toList, isPlain c = true) :
    ∃ body, Toml.render (theme.toDocument.entries?.getD []) = .ok body ∧
      (∀ doc, Toml.read body = some doc → Toml.read text = some doc) ∧
      (theme.toDocument.depth ≤ maxDepth + 1 →
        ∃ doc, Toml.read body = some doc ∧ theme.toDocument.Alike doc) ∧
      ∀ doc, Toml.read body = some doc → theme.toDocument.Alike doc →
        ∃ again, readTheme .toml label text = .ok again ∧
          theme.toDocument.Alike again.toDocument := by
  obtain ⟨body, rendered, rfl⟩ := themeSource_eq_ok_iff.mp written
  obtain ⟨entries, form⟩ := toDocument_eq_object read
  have object : theme.toDocument.entries?.getD [] = entries := by
    rw [form]
    rfl
  obtain ⟨sound, rfl⟩ := render_eq_ok (object ▸ rendered)
  have behind : ∀ doc, Toml.read (Sheet.ofEntries entries).text = some doc →
      Toml.read (header ++ "\n# Source: " ++ file ++ "\n\n" ++ (Sheet.ofEntries entries).text) =
        some doc := fun doc found => read_behind_comments plain found
  refine ⟨_, rendered, behind, fun shallow => ?_, fun doc found alike => ?_⟩
  · -- That the form was rendered leaves its depth as the only thing in the way of reading it.
    have unique := distinct_of_ofDocument distinct read
    have numbers := fit_of_ofDocument fit read
    rw [form] at shallow unique numbers ⊢
    have writable := writable_of_fault? unique numbers sound shallow
    exact ⟨_, read_text writable (Nat.le_refl _), alike_arrange unique⟩
  · rw [readTheme_of_read (behind doc found)]
    exact ofDocument_of_alike read distinct fit alike

def moods : Entries Document :=
  [("moods", .array [.text "calm", .array [.bool true], .object [("since", .number (.integer 2024))]])]

theorem themeSource_with_moods : ∃ theme text again, ofDocument (blankWith moods) = .ok theme ∧
    (blankWith moods).Distinct ∧ (blankWith moods).AllNumbers Number.Fits ∧
    themeSource theme "Day.tokens.json" = .ok text ∧
    (∀ c ∈ "Day.tokens.json".toList, isPlain c = true) ∧
    readTheme .toml "<toml>" text = .ok again ∧ theme.toDocument.Alike again.toDocument := by
  have unknown : ∀ entry ∈ moods, entry.1 ∉ Entries.names schema.fields := by decide
  have resolved : (Document.object moods).Resolved :=
    Document.firstAlias?_eq_none_iff.mp (by decide)
  obtain ⟨declared, read⟩ := ofDocument_blankWith unknown resolved
  have distinct : (blankWith moods).Distinct :=
    uniformWith_distinct unknown ⟨by decide, ⟨trivial, ⟨trivial, trivial⟩, ⟨by decide, trivial, trivial⟩,
      trivial⟩, trivial⟩
  have year : (Number.integer 2024).Fits := by decide
  have fit : (blankWith moods).AllNumbers Number.Fits :=
    uniformWith_numbers (by decide) ⟨⟨trivial, ⟨trivial, trivial⟩, ⟨year, trivial⟩, trivial⟩, trivial⟩
  have faultless : (fault? (blankWith moods)).isNone = true := by decide +kernel
  obtain ⟨text, written⟩ :=
    themeSource_isOk ⟨fit, Option.isNone_iff_eq_none.mp faultless⟩ read "Day.tokens.json"
  have plain : ∀ c ∈ "Day.tokens.json".toList, isPlain c = true := List.all_eq_true.mp (by decide)
  obtain ⟨body, -, -, reads, back⟩ := themeSource_spec read distinct fit written plain
  have shallow : (blankWith moods).depth ≤ maxDepth + 1 := by decide +kernel
  obtain ⟨doc, found, alike⟩ := reads ((depth_of_ofDocument read).trans shallow)
  obtain ⟨again, done, same⟩ := back doc found alike
  exact ⟨_, text, again, read, distinct, fit, written, plain, done, same⟩

theorem readKey_dot (bound : Nat) (rest : List Char) : readKey bound ('.' :: rest) = none := by
  cases bound with
  | zero => rfl
  | succ bound => rfl

theorem readLines_dot (fuel : Nat) (rest : List Char) : readLines fuel ('.' :: rest) = none := by
  cases fuel with
  | zero => rw [readLines]
  | succ fuel =>
      have named : readPair fuel maxDepth ('.' :: rest) = none := by
        cases fuel with
        | zero => rw [readPair]
        | succ fuel =>
            rw [readPair, readKey_dot]
            rfl
      rw [readLines_of_name fuel (by decide), named]
      rfl

/-- Where the name of a file ends the line, the rest of it is read as a statement. -/
theorem read_of_two_lines (first : ∀ c ∈ front.toList, isPlain c = true) (last body : String) :
    Toml.read (header ++ "\n# Source: " ++ (front ++ "\n." ++ last) ++ "\n\n" ++ body) = none := by
  obtain ⟨chars, spelled, plain⟩ := header_spelled
  have second : ∀ c ∈ " Source: ".toList ++ front.toList, isPlain c = true :=
    List.forall_mem_append.mpr ⟨List.all_eq_true.mp (by decide), first⟩
  have lines : (header ++ "\n# Source: " ++ (front ++ "\n." ++ last) ++ "\n\n" ++ body).toList =
      '#' :: (chars ++ '\n' :: '#' :: ((" Source: ".toList ++ front.toList) ++
        '\n' :: '.' :: (last.toList ++ '\n' :: '\n' :: body.toList))) := by
    simp [spelled]
  rw [Toml.read, readSheet_of_comment lines, readLines_comment plain, readLines_comment second,
    readLines_dot, Option.bind_none]

/-- A source that begins no statement in its second line is not read at all. -/
theorem source_of_two_lines_unread : ∃ theme text, ofDocument (blankWith []) = .ok theme ∧
    themeSource theme "Day\n.tokens.json" = .ok text ∧
    readTheme .toml "<toml>" text = .error (.malformed "<toml>") := by
  have unknown : ∀ entry ∈ ([] : Entries Document), entry.1 ∉ Entries.names schema.fields :=
    List.forall_mem_nil _
  obtain ⟨declared, read⟩ := ofDocument_blankWith unknown
    (Document.firstAlias?_eq_none_iff.mp (by decide))
  have fit : (blankWith []).AllNumbers Number.Fits := uniformWith_numbers (by decide) trivial
  have faultless : (fault? (blankWith [])).isNone = true := by decide +kernel
  obtain ⟨text, written⟩ :=
    themeSource_isOk ⟨fit, Option.isNone_iff_eq_none.mp faultless⟩ read "Day\n.tokens.json"
  refine ⟨_, text, read, written, ?_⟩
  obtain ⟨body, -, rfl⟩ := themeSource_eq_ok_iff.mp written
  have name : "Day\n.tokens.json" = "Day" ++ "\n." ++ "tokens.json" := by decide
  rw [name, readTheme, readDocument, Format.read,
    read_of_two_lines (List.all_eq_true.mp (by decide))]

end DesignTokens.Build
