import DesignTokens.Build.Manifest
import DesignTokens.Build.MemoryDisk
import DesignTokens.Proofs.Text.Split

/-! Paths of files in a folder, and the names that generated files have there. -/

namespace DesignTokens.Build

open Text

/-- The name of something in a folder: one step, and not to the folder itself or above it. -/
structure FileName (name : String) : Prop where
  filled : name ≠ ""
  whole : '/' ∉ name.toList
  notHere : name ≠ "."
  notAbove : name ≠ ".."

instance (name : String) : Decidable (FileName name) :=
  decidable_of_iff (name ≠ "" ∧ '/' ∉ name.toList ∧ name ≠ "." ∧ name ≠ "..")
    ⟨fun ⟨filled, whole, here, above⟩ => ⟨filled, whole, here, above⟩,
      fun ⟨filled, whole, here, above⟩ => ⟨filled, whole, here, above⟩⟩

variable {folder name : String}

theorem FileName.split (file : FileName name) : split '/' name = [name] :=
  split_of_not_mem file.whole

theorem split_append (first second : String) :
    split '/' (first ++ "/" ++ second) = split '/' first ++ split '/' second := by
  rw [Text.split, String.toList_append, String.toList_append, List.append_assoc]
  have slash : "/".toList ++ second.toList = '/' :: second.toList := rfl
  rw [slash, pieces_append, List.map_append]
  rfl

theorem exists_of_getLast? (folder : String) (slash : folder.toList.getLast? = some '/') :
    ∃ front, folder = front ++ "/" := by
  obtain ⟨front, chars⟩ := List.getLast?_eq_some_iff.mp slash
  refine ⟨String.ofList front, ?_⟩
  rw [← String.ofList_toList (s := folder), chars, String.ofList_append]

theorem FileName.isAbsolute_eq_false (file : FileName name) : isAbsolute name = false := by
  rw [isAbsolute, decide_eq_false_iff_not]
  intro head
  exact file.whole (List.mem_of_mem_head? head)

theorem split_below (file : FileName name) (folder : String) :
    ∃ front, split '/' (below folder name) = front ++ [name] ∧
      front.filter (fun step => !(step = "" || step = ".")) = pathSteps folder := by
  rw [below, file.isAbsolute_eq_false]
  by_cases empty : folder = ""
  · refine ⟨[], ?_, ?_⟩
    · rw [if_pos (.inr empty), file.split, List.nil_append]
    · rw [empty]
      rfl
  · rw [if_neg (by simp [empty])]
    by_cases slash : folder.toList.getLast? = some '/'
    · obtain ⟨front, rfl⟩ := exists_of_getLast? folder slash
      refine ⟨split '/' front, ?_, ?_⟩
      · rw [if_pos slash, split_append, file.split]
      · have both := split_append front ""
        rw [String.append_empty] at both
        rw [pathSteps, both, List.filter_append]
        exact (List.append_nil _).symm
    · refine ⟨split '/' folder, ?_, rfl⟩
      rw [if_neg slash, split_append, file.split]

theorem pathSteps_below (file : FileName name) (folder : String) :
    pathSteps (below folder name) = pathSteps folder ++ [name] := by
  obtain ⟨front, whole, steps⟩ := split_below file folder
  rw [pathSteps, whole, List.filter_append, steps]
  simp [file.filled, file.notHere]

theorem isAbsolute_below (file : FileName name) (folder : String) :
    isAbsolute (below folder name) = isAbsolute folder := by
  rw [below, file.isAbsolute_eq_false]
  by_cases empty : folder = ""
  · rw [if_pos (.inr empty), file.isAbsolute_eq_false, empty]
    rfl
  · have some : folder.toList ≠ [] := by simpa using empty
    rw [if_neg (by simp [empty])]
    obtain ⟨first, rest, chars⟩ := List.exists_cons_of_ne_nil some
    split <;> simp [isAbsolute, chars]

theorem toList_getLast?_below (file : FileName name) (folder : String) :
    (below folder name).toList.getLast? ≠ some '/' := by
  have last : ∀ front : List Char, (front ++ name.toList).getLast? ≠ some '/' := by
    intro front slash
    have some : name.toList ≠ [] := by simpa using file.filled
    rw [List.getLast?_append, List.getLast?_eq_some_getLast some, Option.some_or] at slash
    exact file.whole (Option.some.inj slash ▸ List.getLast_mem some)
  rw [below, file.isAbsolute_eq_false]
  split
  · exact last []
  · split
    · rw [String.toList_append]
      exact last _
    · rw [String.toList_append]
      exact last _

theorem asksFolder_below (file : FileName name) (folder : String) :
    MemoryDisk.asksFolder (below folder name) = false := by
  obtain ⟨front, whole, -⟩ := split_below file folder
  have ends : MemoryDisk.endsInPlace (below folder name) = false := by
    rw [MemoryDisk.endsInPlace, whole, List.filter_append, decide_eq_false_iff_not]
    simp [file.filled, file.notHere]
  rw [MemoryDisk.asksFolder, ends, decide_eq_false (toList_getLast?_below file folder)]
  rfl

theorem nameExtension?_append {chars extension : List Char} (some : chars ≠ [])
    (whole : '.' ∉ extension) : nameExtension? (chars ++ '.' :: extension) = .some extension := by
  have other : ∀ c ∈ extension.reverse, decide (c ≠ '.') = true := by
    intro c member
    rw [decide_eq_true_eq]
    rintro rfl
    exact whole (List.mem_reverse.mp member)
  have reversed : (chars ++ '.' :: extension).reverse =
      extension.reverse ++ '.' :: chars.reverse := by
    simp
  obtain ⟨last, front, tail⟩ := List.exists_cons_of_ne_nil (mt List.reverse_eq_nil_iff.mp some)
  rw [nameExtension?, reversed]
  rw [List.dropWhile_append_of_pos other, List.takeWhile_append_of_pos other, tail]
  simp

theorem extension?_below {chars extension : List Char} (file : FileName name)
    (text : name.toList = chars ++ '.' :: extension) (some : chars ≠ []) (whole : '.' ∉ extension)
    (folder : String) : extension? (below folder name) = .some (String.ofList extension) := by
  rw [extension?, pathSteps_below file, List.getLast?_concat]
  simp only [if_neg file.notAbove, text, nameExtension?_append some whole, Option.map_some]

theorem fileName_append {ending : String} (whole : '/' ∉ name.toList) (ends : '/' ∉ ending.toList)
    (long : 2 < ending.length) : FileName (name ++ ending) := by
  have length : 2 < (name ++ ending).length := by
    rw [String.length_append]
    omega
  refine ⟨?_, ?_, ?_, ?_⟩
  · intro same
    rw [same] at length
    exact absurd length (by decide)
  · rw [String.toList_append, List.mem_append]
    exact not_or.mpr ⟨whole, ends⟩
  · intro same
    rw [same] at length
    exact absurd length (by decide)
  · intro same
    rw [same] at length
    exact absurd length (by decide)

namespace Listing

variable {job other : Job}

theorem fileName_theme (whole : '/' ∉ job.name.toList) : FileName (ofJob job).theme :=
  fileName_append whole (by decide) (by decide)

theorem fileName_reference (whole : '/' ∉ job.name.toList) : FileName (ofJob job).reference :=
  fileName_append whole (by decide) (by decide)

theorem theme_eq_iff : (ofJob job).theme = (ofJob other).theme ↔ job.name = other.name := by
  rw [ofJob, ofJob, ← String.toList_inj, ← String.toList_inj, String.toList_append,
    String.toList_append, List.append_left_inj]

theorem reference_eq_iff :
    (ofJob job).reference = (ofJob other).reference ↔ job.name = other.name := by
  rw [ofJob, ofJob, ← String.toList_inj, ← String.toList_inj, String.toList_append,
    String.toList_append, List.append_left_inj]

theorem theme_ne_reference (job other : Job) : (ofJob job).theme ≠ (ofJob other).reference := by
  intro same
  have last := congrArg (fun name => name.toList.getLast?) same
  have toml : ".theme.toml".toList.getLast? = some 'l' := rfl
  have json : ".reference.json".toList.getLast? = some 'n' := rfl
  simp only [ofJob, String.toList_append, List.getLast?_append, toml, json, Option.some_or] at last
  exact absurd last (by decide)

theorem theme_ne_index (job : Job) : (ofJob job).theme ≠ Manifest.fileName := by
  intro same
  have length := congrArg String.length same
  rw [ofJob, String.length_append] at length
  exact absurd length (Nat.ne_of_gt (Nat.lt_add_left _ (by decide)))

theorem reference_ne_index (job : Job) : (ofJob job).reference ≠ Manifest.fileName := by
  intro same
  have length := congrArg String.length same
  rw [ofJob, String.length_append] at length
  exact absurd length (Nat.ne_of_gt (Nat.lt_add_left _ (by decide)))

theorem ofFile?_theme (whole : '/' ∉ job.name.toList) (folder : String) :
    Format.ofFile? (below folder (ofJob job).theme) = some .toml := by
  have text : (ofJob job).theme.toList = (job.name.toList ++ ".theme".toList) ++ '.' :: "toml".toList := by
    rw [ofJob, String.toList_append, List.append_assoc]
    rfl
  have extension := extension?_below (fileName_theme whole) text (by simp) (by decide) folder
  rw [Format.ofFile?, extension]
  rfl

end Listing

theorem fileName_index : FileName Manifest.fileName := by decide

end DesignTokens.Build
