import DesignTokens.Token.Path

/-! The texts of paths and of aliases name them without loss. -/

namespace DesignTokens.Token

theorem Path.text_ofText (text : String) : (Path.ofText text).text = text :=
  Text.join_split '.' text

theorem eq_of_aliasTarget? {text target : String} (found : aliasTarget? text = some target) :
    text = String.ofList (aliasOpen :: (target.toList ++ [aliasClose])) := by
  cases chars : text.toList with
  | nil => simp [aliasTarget?, chars] at found
  | cons first rest =>
      simp only [aliasTarget?, chars, Option.ite_none_right_eq_some, Option.some.injEq] at found
      obtain ⟨⟨opened, closed⟩, rfl⟩ := found
      obtain ⟨inner, rfl⟩ := List.getLast?_eq_some_iff.mp closed
      rw [String.toList_ofList, List.dropLast_concat, ← opened, ← chars, String.ofList_toList]

theorem Path.toAlias_of_ofAlias? {text : String} {target : Path}
    (found : Path.ofAlias? text = some target) : target.toAlias = text := by
  obtain ⟨inner, opened, rfl⟩ := Option.map_eq_some_iff.mp found
  rw [Path.toAlias, Path.text_ofText]
  exact (eq_of_aliasTarget? opened).symm

theorem Path.ofAlias?_eq_none_iff (text : String) :
    Path.ofAlias? text = none ↔ isAlias text = false := by
  simp [Path.ofAlias?, isAlias]

end DesignTokens.Token
