/-! Texts cut at a separator and put together again. -/

namespace DesignTokens.Text

/-- The pieces between separators. There is always at least one, and pieces may be empty. -/
def pieces (separator : Char) : List Char → List (List Char)
  | [] => [[]]
  | c :: rest =>
      if c = separator then [] :: pieces separator rest
      else match pieces separator rest with
        | [] => [[c]]
        | piece :: more => (c :: piece) :: more

def glue (separator : Char) : List (List Char) → List Char
  | [] => []
  | [piece] => piece
  | piece :: next :: more => piece ++ separator :: glue separator (next :: more)

def split (separator : Char) (text : String) : List String :=
  (pieces separator text.toList).map String.ofList

def join (separator : Char) (parts : List String) : String :=
  String.ofList (glue separator (parts.map String.toList))

theorem pieces_ne_nil (separator : Char) (text : List Char) : pieces separator text ≠ [] := by
  cases text with
  | nil => simp [pieces]
  | cons c rest =>
      by_cases cut : c = separator
      · simp [pieces, cut]
      · simp only [pieces, cut, if_false]
        split <;> simp

theorem split_ne_nil (separator : Char) (text : String) : split separator text ≠ [] := by
  simpa [split] using pieces_ne_nil separator text.toList

theorem glue_pieces (separator : Char) (text : List Char) :
    glue separator (pieces separator text) = text := by
  induction text with
  | nil => rfl
  | cons c rest ih =>
      by_cases cut : c = separator
      · cases more : pieces separator rest with
        | nil => exact absurd more (pieces_ne_nil separator rest)
        | cons piece others =>
            rw [more] at ih
            simp [pieces, cut, more, glue, ih]
      · cases more : pieces separator rest with
        | nil => exact absurd more (pieces_ne_nil separator rest)
        | cons piece others =>
            rw [more] at ih
            cases others <;> simp_all [pieces, glue]

theorem join_split (separator : Char) (text : String) :
    join separator (split separator text) = text := by
  have inverse : String.toList ∘ String.ofList = id := by
    funext chars
    simp
  simp [join, split, List.map_map, inverse, glue_pieces]

end DesignTokens.Text
