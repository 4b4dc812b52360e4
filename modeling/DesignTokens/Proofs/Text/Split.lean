import DesignTokens.Text.Split

/-!
Cutting what was put together. Parts that hold no separator are found again; a part that holds some is
cut there too.
-/

namespace DesignTokens.Text

variable {separator : Char}

theorem pieces_of_not_mem {text : List Char} (whole : separator ∉ text) :
    pieces separator text = [text] := by
  induction text with
  | nil => rfl
  | cons c rest ih =>
      have other : c ≠ separator := fun same => whole (same ▸ List.mem_cons_self)
      rw [pieces, if_neg other, ih fun member => whole (List.mem_cons_of_mem c member)]

theorem pieces_append (separator : Char) (text more : List Char) :
    pieces separator (text ++ separator :: more) = pieces separator text ++ pieces separator more := by
  induction text with
  | nil => simp [pieces]
  | cons c rest ih =>
      by_cases cut : c = separator
      · rw [List.cons_append, pieces, if_pos cut, ih, pieces, if_pos cut]
        rfl
      · rw [List.cons_append, pieces, if_neg cut, ih, pieces, if_neg cut]
        cases parts : pieces separator rest with
        | nil => exact absurd parts (pieces_ne_nil separator rest)
        | cons piece others => rfl

theorem not_mem_of_mem_pieces {text piece : List Char} (cut : piece ∈ pieces separator text) :
    separator ∉ piece := by
  induction text generalizing piece with
  | nil =>
      rw [pieces, List.mem_singleton] at cut
      exact cut ▸ List.not_mem_nil
  | cons c rest ih =>
      rw [pieces] at cut
      split at cut
      · rcases List.mem_cons.mp cut with rfl | later
        · exact List.not_mem_nil
        · exact ih later
      · rename_i other
        cases parts : pieces separator rest with
        | nil => exact absurd parts (pieces_ne_nil separator rest)
        | cons first others =>
            rw [parts] at cut ih
            rcases List.mem_cons.mp cut with rfl | later
            · intro member
              rcases List.mem_cons.mp member with same | inside
              · exact other same.symm
              · exact ih List.mem_cons_self inside
            · exact ih (List.mem_cons_of_mem first later)

theorem pieces_glue (separator : Char) {parts : List (List Char)} (filled : parts ≠ []) :
    pieces separator (glue separator parts) = parts.flatMap (pieces separator) := by
  induction parts with
  | nil => exact absurd rfl filled
  | cons part rest ih =>
      cases rest with
      | nil => rw [glue, List.flatMap_singleton]
      | cons next more =>
          rw [glue, pieces_append, ih (List.cons_ne_nil next more), ← List.flatMap_cons]

theorem glue_eq_intercalate (separator : Char) (parts : List (List Char)) :
    glue separator parts = List.intercalate [separator] parts := by
  induction parts with
  | nil => rfl
  | cons part rest ih =>
      cases rest with
      | nil => simp [glue]
      | cons next more => rw [glue, ih, List.intercalate_cons_cons, List.append_cons, List.append_assoc]

theorem join_eq_intercalate (separator : Char) (parts : List String) :
    join separator parts = String.intercalate (String.singleton separator) parts := by
  apply String.toList_inj.mp
  rw [join, String.toList_ofList, glue_eq_intercalate, String.toList_intercalate,
    String.toList_singleton]

theorem split_of_not_mem {text : String} (whole : separator ∉ text.toList) :
    split separator text = [text] := by
  rw [split, pieces_of_not_mem whole, List.map_singleton, String.ofList_toList]

theorem not_mem_of_mem_split {text part : String} (cut : part ∈ split separator text) :
    separator ∉ part.toList := by
  obtain ⟨piece, listed, rfl⟩ := List.mem_map.mp cut
  rw [String.toList_ofList]
  exact not_mem_of_mem_pieces listed

/-- What was put together is cut at the seams, and wherever else a part holds the separator. -/
theorem split_join (separator : Char) {parts : List String} (filled : parts ≠ []) :
    split separator (join separator parts) = parts.flatMap (split separator) := by
  have filled' : parts.map String.toList ≠ [] := mt List.map_eq_nil_iff.mp filled
  rw [split, join, String.toList_ofList, pieces_glue separator filled', List.flatMap_map,
    List.map_flatMap]
  rfl

theorem flatMap_split_eq_self_iff {parts : List String} :
    parts.flatMap (split separator) = parts ↔ ∀ part ∈ parts, separator ∉ part.toList := by
  constructor
  · intro same part listed
    rw [← same] at listed
    obtain ⟨whole, -, cut⟩ := List.mem_flatMap.mp listed
    exact not_mem_of_mem_split cut
  · intro whole
    induction parts with
    | nil => rfl
    | cons part rest ih =>
        obtain ⟨here, others⟩ := List.forall_mem_cons.mp whole
        rw [List.flatMap_cons, split_of_not_mem here, ih others, List.singleton_append]

end DesignTokens.Text
