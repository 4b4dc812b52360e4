import DesignTokens.Proofs.Toml.Reading

/-!
The bound on the work of the reader. What is found within a bound is found within every larger one, so
a text that was read is read the same way behind other lines.
-/

namespace DesignTokens.Toml

variable {α β : Type} {fuel more depth : Nat} {chars : List Char} {text : String} {sheet : Sheet}
  {entries : Entries Document}

/-- What is found within a bound on the work is found within the next one. -/
structure Steady (fuel : Nat) : Prop where
  value : ∀ depth chars found, readValue fuel depth chars = some found →
    readValue (fuel + 1) depth chars = some found
  items : ∀ depth chars found, readItems fuel depth chars = some found →
    readItems (fuel + 1) depth chars = some found
  pairs : ∀ depth chars found, readPairs fuel depth chars = some found →
    readPairs (fuel + 1) depth chars = some found
  pair : ∀ depth chars found, readPair fuel depth chars = some found →
    readPair (fuel + 1) depth chars = some found

theorem steady_zero : Steady 0 where
  value depth chars found done := by
    rw [readValue] at done
    cases done
  items depth chars found done := by
    rw [readItems] at done
    cases done
  pairs depth chars found done := by
    rw [readPairs] at done
    cases done
  pair depth chars found done := by
    rw [readPair] at done
    cases done

theorem bind_of_some {first second : Option α} {f g : α → Option β} {y : β}
    (steady : ∀ x, first = some x → second = some x) (later : ∀ x y, f x = some y → g x = some y)
    (done : first.bind f = some y) : second.bind g = some y := by
  obtain ⟨x, here, there⟩ := Option.bind_eq_some_iff.mp done
  rw [steady x here]
  exact later x y there

theorem Steady.value_succ (steady : Steady fuel) (found : Document × List Char)
    (done : readValue (fuel + 1) depth chars = some found) :
    readValue (fuel + 2) depth chars = some found := by
  cases chars with
  | nil =>
      rw [readValue] at done ⊢
      · exact done
      all_goals exact fun _ same => List.cons_ne_nil _ _ same.symm
  | cons c rest =>
      by_cases bracket : c = '['
      · subst bracket
        rw [readValue] at done ⊢
        split at done
        · cases done
        · rename_i deep
          rw [Option.map_eq_bind] at done
          rw [if_neg deep, Option.map_eq_bind]
          exact bind_of_some (steady.items _ _) (fun _ _ => id) done
      · by_cases brace : c = '\x7b'
        · subst brace
          rw [readValue] at done ⊢
          split at done
          · cases done
          · rename_i deep
            rw [if_neg deep]
            split at done
            · exact done
            · exact bind_of_some (steady.pairs _ _) (fun _ _ => id) done
        · rw [readValue] at done ⊢
          · exact done
          all_goals simp [bracket, brace]

theorem Steady.succ (steady : Steady fuel) : Steady (fuel + 1) where
  value depth chars found := steady.value_succ found
  items depth chars found done := by
    rw [readItems] at done ⊢
    split at done
    · exact done
    · refine bind_of_some (steady.value _ _) ?_ done
      rintro ⟨item, rest⟩ found done
      dsimp only at done ⊢
      split at done
      · exact bind_of_some (steady.items _ _) (fun _ _ => id) done
      · exact done
      · cases done
  pairs depth chars found done := by
    rw [readPairs] at done ⊢
    refine bind_of_some (steady.pair _ _) ?_ done
    rintro ⟨pair, rest⟩ found done
    dsimp only at done ⊢
    split at done
    · exact bind_of_some (steady.pairs _ _) (fun _ _ => id) done
    · exact done
    · cases done
  pair depth chars found done := by
    rw [readPair] at done ⊢
    refine bind_of_some (fun _ => id) ?_ done
    rintro ⟨key, rest⟩ found done
    dsimp only at done ⊢
    split at done
    · exact bind_of_some (steady.value _ _) (fun _ _ => id) done
    · cases done

theorem steady (fuel : Nat) : Steady fuel := by
  induction fuel with
  | zero => exact steady_zero
  | succ fuel ih => exact ih.succ

theorem readLines_succ (done : readLines fuel chars = some sheet) :
    readLines (fuel + 1) chars = some sheet := by
  induction fuel generalizing chars sheet with
  | zero =>
      rw [readLines] at done
      cases done
  | succ fuel ih =>
      have lines : ∀ chars sheet, readLines fuel chars = some sheet →
          readLines (fuel + 1) chars = some sheet := fun _ _ => ih
      -- What stands on the line is followed by what ends it, and this by the other lines.
      have others : ∀ (build : Sheet → Sheet) rest sheet,
          ((endLine rest).bind fun rest => (readLines fuel rest).bind fun sheet => some (build sheet)) =
            some sheet →
          ((endLine rest).bind fun rest => (readLines (fuel + 1) rest).bind fun sheet =>
            some (build sheet)) = some sheet := by
        intro build rest sheet done
        refine bind_of_some (fun _ => id) (fun rest sheet done => ?_) done
        exact bind_of_some (lines rest) (fun _ _ => id) done
      rw [readLines] at done ⊢
      split at done
      · exact done
      · exact bind_of_some (fun _ => id) lines done
      · exact ih done
      · exact ih done
      · exact bind_of_some (fun _ => id) (fun header sheet done => others _ header.2 sheet done) done
      · exact bind_of_some (fun _ => id) (fun header sheet done => others _ header.2 sheet done) done
      · exact bind_of_some ((steady fuel).pair _ _) (fun pair sheet done => others _ pair.2 sheet done) done

theorem readLines_mono (le : fuel ≤ more) (done : readLines fuel chars = some sheet) :
    readLines more chars = some sheet := by
  induction le with
  | refl => exact done
  | step _ ih => exact readLines_succ ih

theorem intercalate_start {c : Char} {first : String} (start : ∃ more, first.toList = c :: more)
    (texts : List String) : ∃ more, (String.intercalate "\n" (first :: texts)).toList = c :: more := by
  obtain ⟨more, chars⟩ := start
  cases texts with
  | nil => exact ⟨more, by simpa using chars⟩
  | cons next texts =>
      refine ⟨more ++ '\n' :: (String.intercalate "\n" (next :: texts)).toList, ?_⟩
      simp [String.intercalate_cons_cons, chars]

theorem pairText_start {pair : Pair} (listed : pair ∈ plainPairs entries) :
    ∃ c, c ≠ '\ufeff' ∧ ∃ more, (pairText pair).toList = c :: more := by
  rw [plainPairs_eq] at listed
  obtain ⟨entry, -, rfl⟩ := List.mem_map.mp listed
  obtain ⟨c, more, chars, start⟩ := quoteName_first entry.1
  refine ⟨c, ?_, _, by simp [pairText, keyText_singleton, chars]; rfl⟩
  rcases start with bare | rfl | rfl
  · exact ne_of_isBare bare (by decide)
  · decide
  · decide

theorem sectionText_start (part : Section) : ∃ more, (sectionText part).toList = '[' :: more := by
  obtain ⟨header, pairs⟩ := part
  cases header with
  | table path => exact ⟨_, by simp [sectionText, headerText]; rfl⟩
  | element path => exact ⟨_, by simp [sectionText, headerText]; rfl⟩

theorem text_ofEntries_start (entries : Entries Document) (rest : List Char) :
    (Sheet.ofEntries entries).text.toList ≠ '\ufeff' :: rest := by
  have apart : ∀ (c : Char) (text : String), c ≠ '\ufeff' → (∃ more, text.toList = c :: more) →
      text.toList ≠ '\ufeff' :: rest := by
    rintro c text other ⟨more, chars⟩ marked
    exact other (List.cons.inj (chars.symm.trans marked)).1
  rw [Sheet.ofEntries, Sheet.text]
  cases pairs : plainPairs entries with
  | nil =>
      cases sectionsBelow [] entries with
      | nil => exact (List.cons_ne_nil _ _).symm
      | cons part parts =>
          exact apart '[' _ (by decide) (intercalate_start (sectionText_start part) _)
  | cons pair others =>
      have listed : pair ∈ plainPairs entries := pairs ▸ List.mem_cons_self
      obtain ⟨c, other, more, chars⟩ := pairText_start listed
      refine apart c _ other (intercalate_start ⟨more ++ (String.join (others.map pairText)).toList, ?_⟩ _)
      simp [chars]

theorem readSheet_ofEntries (entries : Entries Document) : readSheet (Sheet.ofEntries entries).text =
    readLines (2 * (Sheet.ofEntries entries).text.toList.length + 2)
      (Sheet.ofEntries entries).text.toList := by
  rw [readSheet]
  split
  · exact absurd ‹_› (text_ofEntries_start entries _)
  · rfl

theorem reads_of_readSheet (found : readSheet (Sheet.ofEntries entries).text = some sheet) :
    Reads (Sheet.ofEntries entries).text.toList sheet := by
  intro fuel enough
  rw [readSheet_ofEntries] at found
  exact readLines_mono enough found

/-- The text of a document is read as the document, laid out. -/
theorem read_text (writable : (Document.object entries).Writable depth) (few : depth ≤ maxDepth + 1) :
    read (Sheet.ofEntries entries).text = some (arrange (.object entries)) := by
  have found := reads_ofEntries writable few _ (Nat.le_refl _)
  rw [read, readSheet_ofEntries, found, Option.bind_some, toDocument_ofEntries writable.distinct]

end DesignTokens.Toml
