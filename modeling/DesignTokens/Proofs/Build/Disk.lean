import DesignTokens.Proofs.Build.Path
import DesignTokens.Proofs.Build.Task
import DesignTokens.Proofs.Entries

/-!
What is on a disk in memory. A file that is written is the one change that writing it makes, making
folders loses nothing, and a path leads to the same place for as long as the folders are the same.
-/

namespace DesignTokens.Build

namespace Node

def content? : Node → Option ByteArray
  | .file content => some content
  | .folder _ => none

/-- What stands at a place below a node: nothing, a folder, or a file with its content. -/
def look (place : List String) (node : Node) : Option (Option ByteArray) :=
  (node.at? place).map content?

variable {node new : Node} {name : String} {place other : List String}
  {entries : List (String × Node)} {content : ByteArray}

theorem look_nil (node : Node) : node.look [] = some node.content? := rfl

theorem look_folder (name : String) (rest : List String) (entries : List (String × Node)) :
    (Node.folder entries).look (name :: rest) = (Entries.value? name entries).bind (look rest) := by
  rw [look, at?]
  cases Entries.value? name entries <;> rfl

theorem look_file (name : String) (rest : List String) (content : ByteArray) :
    (Node.file content).look (name :: rest) = none := rfl

theorem eq_folder_of_look (folder : node.look [] = some none) : ∃ entries, node = .folder entries := by
  cases node with
  | file content => cases folder
  | folder entries => exact ⟨entries, rfl⟩

theorem exists_of_look {rest : List String} {held : Option ByteArray}
    (found : node.look (name :: rest) = some held) :
    ∃ entries inner, node = .folder entries ∧ Entries.value? name entries = some inner ∧
      inner.look rest = some held := by
  cases node with
  | file content => cases found
  | folder entries =>
      rw [look_folder] at found
      obtain ⟨inner, here, below⟩ := Option.bind_eq_some_iff.mp found
      exact ⟨entries, inner, rfl, here, below⟩

theorem plant_cons (name : String) (rest : List String) (entries : List (String × Node))
    (new : Node) : (Node.folder entries).plant (name :: rest) new =
      .folder (Entries.put name
        (((Entries.value? name entries).getD (.folder [])).plant rest new) entries) := by
  rw [plant]

theorem look_put_file (free : (Node.folder entries).look [name] ≠ some none) (content : ByteArray)
    (other : List String) :
    (Node.folder (Entries.put name (.file content) entries)).look other =
      if other = [name] then some (some content) else (Node.folder entries).look other := by
  cases other with
  | nil => rfl
  | cons first rest =>
      rw [look_folder, look_folder]
      by_cases same : first = name
      · subst same
        rw [Entries.value?_put_self, Option.bind_some]
        cases rest with
        | nil => simp [look_nil, content?]
        | cons next rest =>
            -- Nothing is below a file, and nothing was there before, as there was no folder.
            rw [look_folder] at free
            rw [look_file, if_neg (by simp)]
            cases here : Entries.value? first entries with
            | none => rfl
            | some inner =>
                cases inner with
                | file content => rfl
                | folder inner => exact absurd (by rw [here]; rfl) free
      · rw [Entries.value?_put_of_ne same, if_neg (by simp [same])]

/-- A file planted in a folder is all that changes, unless there was a folder in its place. -/
theorem look_plant_file (folder : node.look place = some none)
    (free : node.look (place ++ [name]) ≠ some none) (content : ByteArray) (other : List String) :
    (node.plant (place ++ [name]) (.file content)).look other =
      if other = place ++ [name] then some (some content) else node.look other := by
  induction place generalizing node other with
  | nil =>
      obtain ⟨entries, rfl⟩ := eq_folder_of_look folder
      rw [List.nil_append, plant_cons, plant]
      exact look_put_file free content other
  | cons first place ih =>
      obtain ⟨entries, inner, rfl, here, below⟩ := exists_of_look folder
      rw [List.cons_append, look_folder, here, Option.bind_some] at free
      rw [List.cons_append, plant_cons, here, Option.getD_some]
      cases other with
      | nil => rfl
      | cons next rest =>
          rw [look_folder, look_folder]
          by_cases same : next = first
          · subst same
            rw [Entries.value?_put_self, Option.bind_some, here, Option.bind_some, ih below free]
            simp
          · rw [Entries.value?_put_of_ne same, if_neg (by simp [same])]

theorem look_plant_folder (missing : node.at? place = none) {held : Option ByteArray}
    (there : node.look other = some held) :
    (node.plant place (.folder [])).look other = some held := by
  induction place generalizing node other with
  | nil => cases missing
  | cons first place ih =>
      cases node with
      | file content => exact there
      | folder entries =>
          rw [plant_cons]
          cases other with
          | nil => exact there
          | cons next rest =>
              rw [look_folder] at there ⊢
              by_cases same : next = first
              · subst same
                obtain ⟨inner, here, below⟩ := Option.bind_eq_some_iff.mp there
                rw [at?, here, Option.bind_some] at missing
                rw [Entries.value?_put_self, here, Option.getD_some, Option.bind_some]
                exact ih missing below
              · rwa [Entries.value?_put_of_ne same]

end Node

namespace MemoryDisk

variable {disk next other : MemoryDisk} {folder name path : String} {place : List String}
  {content : ByteArray}

theorem isFolder_iff : disk.isFolder place = true ↔ disk.root.look place = some none := by
  rw [isFolder, Node.look]
  cases disk.root.at? place with
  | none => simp
  | some node => cases node <;> simp [Node.isFolder, Node.content?]

def reach? (disk : MemoryDisk) (folder : String) : Option (List String) :=
  (pathSteps folder).foldlM disk.step (disk.origin folder)

structure SameFolders (disk other : MemoryDisk) : Prop where
  working : other.working = disk.working
  folders : ∀ place, other.isFolder place = disk.isFolder place

theorem SameFolders.refl (disk : MemoryDisk) : disk.SameFolders disk := ⟨rfl, fun _ => rfl⟩

theorem SameFolders.trans (first : disk.SameFolders next) (second : next.SameFolders other) :
    disk.SameFolders other :=
  ⟨second.working.trans first.working,
    fun place => (second.folders place).trans (first.folders place)⟩

theorem SameFolders.of_contents (same : other.contents = disk.contents) : disk.SameFolders other := by
  obtain ⟨root, working⟩ := Prod.mk.inj same
  refine ⟨working, fun place => ?_⟩
  rw [isFolder, isFolder, root]

theorem SameFolders.reach? (same : disk.SameFolders other) (folder : String) :
    other.reach? folder = disk.reach? folder := by
  have steps : other.step = disk.step := by
    funext place name
    rw [step, step, same.folders]
  rw [MemoryDisk.reach?, MemoryDisk.reach?, steps, origin, origin, same.working]

theorem read_of_contents (same : other.contents = disk.contents) (path : String) :
    other.read path = disk.read path := by
  have places : other.place? path = disk.place? path := by
    rw [place?, place?, ← MemoryDisk.reach?, ← MemoryDisk.reach?, (SameFolders.of_contents same).reach?]
  rw [read, read, places, (Prod.mk.inj same).1]

theorem origin_below (file : FileName name) (disk : MemoryDisk) (folder : String) :
    disk.origin (below folder name) = disk.origin folder := by
  rw [origin, origin, isAbsolute_below file]

/-- What the disk asks of the path to a file in a folder. -/
structure Fits (folder name : String) : Prop where
  path : isPath (below folder name) = true
  name : nameFits name = true

instance (folder name : String) : Decidable (Fits folder name) :=
  decidable_of_iff (isPath (below folder name) = true ∧ nameFits name = true)
    ⟨fun ⟨path, fits⟩ => ⟨path, fits⟩, fun ⟨path, fits⟩ => ⟨path, fits⟩⟩

theorem step_eq_some_iff (file : FileName name) {above : List String} :
    disk.step above name = some place ↔
      disk.isFolder above = true ∧ nameFits name = true ∧ place = above ++ [name] := by
  rw [step, if_neg file.notAbove]
  cases disk.isFolder above <;> cases nameFits name <;> simp [eq_comm]

theorem reach?_name (file : FileName name) (fits : nameFits name = true)
    (ready : disk.isFolder disk.working = true) :
    disk.reach? name = some (disk.working ++ [name]) := by
  have steps : pathSteps name = [name] := by
    rw [pathSteps, file.split]
    simp [file.filled, file.notHere]
  have start : disk.origin name = disk.working := by
    rw [origin, file.isAbsolute_eq_false]
    rfl
  rw [reach?, steps, start, List.foldlM_cons,
    (step_eq_some_iff file).mpr ⟨ready, fits, rfl⟩, Option.bind_eq_bind, Option.bind_some]
  rfl

theorem place?_below_eq_some_iff (file : FileName name) :
    disk.place? (below folder name) = some place ↔
      Fits folder name ∧ ∃ above, disk.reach? folder = some above ∧
        disk.isFolder above = true ∧ place = above ++ [name] := by
  have steps : (pathSteps (below folder name)).foldlM disk.step (disk.origin (below folder name)) =
      (disk.reach? folder).bind fun above => disk.step above name := by
    rw [pathSteps_below file, origin_below file, List.foldlM_append, reach?]
    simp [List.foldlM_cons, List.foldlM_nil]
  rw [place?, steps]
  constructor
  · intro found
    by_cases path : isPath (below folder name) = true
    · rw [if_pos path] at found
      obtain ⟨above, reached, step⟩ := Option.bind_eq_some_iff.mp found
      obtain ⟨ready, fits, same⟩ := (step_eq_some_iff file).mp step
      exact ⟨⟨path, fits⟩, above, reached, ready, same⟩
    · rw [if_neg path] at found
      cases found
  · rintro ⟨fits, above, reached, ready, rfl⟩
    rw [if_pos fits.path, reached, Option.bind_some]
    exact (step_eq_some_iff file).mpr ⟨ready, fits.name, rfl⟩

theorem read_below (file : FileName name) (fits : Fits folder name)
    (reached : disk.reach? folder = some place) (ready : disk.isFolder place = true)
    (held : disk.root.look (place ++ [name]) = some (some content)) :
    disk.read (below folder name) = some content := by
  have found : disk.place? (below folder name) = some (place ++ [name]) :=
    (place?_below_eq_some_iff file).mpr ⟨fits, place, reached, ready, rfl⟩
  obtain ⟨node, here, same⟩ := Option.map_eq_some_iff.mp held
  cases node with
  | folder entries => cases same
  | file held =>
      cases same
      rw [read, found]
      simp [here, asksFolder_below file]

structure Wrote (folder : String) (files : List (String × String)) (disk other : MemoryDisk) :
    Prop where
  same : disk.SameFolders other
  ready : ∀ file ∈ files, Fits folder file.1 ∧
    ∃ place, disk.reach? folder = some place ∧ disk.isFolder place = true
  /-- Of several files of one name the last one is there. -/
  held : ∀ place, disk.reach? folder = some place → ∀ name text,
    Entries.value? name files.reverse = some text →
      other.root.look (place ++ [name]) = some (some text.toUTF8)
  frame : ∀ place, (∀ above, disk.reach? folder = some above →
    ∀ file ∈ files, place ≠ above ++ [file.1]) → other.root.look place = disk.root.look place

theorem Wrote.nil (same : other.contents = disk.contents) : Wrote folder [] disk other where
  same := .of_contents same
  ready := List.forall_mem_nil _
  held := fun _ _ _ _ found => by cases found
  frame := fun _ _ => by rw [(Prod.mk.inj same).1]

variable {files more : List (String × String)}

theorem Wrote.append (first : Wrote folder files disk next) (second : Wrote folder more next other) :
    Wrote folder (files ++ more) disk other where
  same := first.same.trans second.same
  ready := by
    apply List.forall_mem_append.mpr ⟨first.ready, fun file listed => ?_⟩
    obtain ⟨fits, place, reached, ready⟩ := second.ready file listed
    rw [first.same.reach?] at reached
    rw [first.same.folders] at ready
    exact ⟨fits, place, reached, ready⟩
  held := by
    intro place reached name text found
    have reached' : next.reach? folder = some place := (first.same.reach? folder).trans reached
    rw [List.reverse_append, Entries.value?_append] at found
    cases late : Entries.value? name more.reverse with
    | some newest =>
        rw [late, Option.some_or, Option.some.injEq] at found
        exact found ▸ second.held place reached' name newest late
    | none =>
        rw [late, Option.none_or] at found
        rw [second.frame, first.held place reached name text found]
        intro above reached'' file listed same
        rw [reached', Option.some.injEq] at reached''
        subst reached''
        have named : name = file.1 := by simpa using same
        apply Entries.value?_eq_none.mp late
        exact named ▸ List.mem_map.mpr ⟨file, List.mem_reverse.mpr listed, rfl⟩
  frame := by
    intro place apart
    rw [second.frame, first.frame]
    · exact fun above reached file listed =>
        apart above reached file (List.mem_append_left _ listed)
    · intro above reached file listed
      rw [first.same.reach?] at reached
      exact apart above reached file (List.mem_append_right _ listed)

theorem Wrote.file {text : String} (file : FileName name)
    (written : disk.write (below folder name) text.toUTF8 = some other) :
    Wrote folder [(name, text)] disk other := by
  obtain ⟨place, found, done⟩ := Option.bind_eq_some_iff.mp written
  obtain ⟨fits, above, reached, ready, rfl⟩ := (place?_below_eq_some_iff file).mp found
  rw [asksFolder_below file, Bool.false_or] at done
  cases free : disk.isFolder (above ++ [name]) with
  | true =>
      rw [free] at done
      cases done
  | false =>
      rw [free] at done
      cases done
      have look := Node.look_plant_file (isFolder_iff.mp ready)
        (fun held => by rw [isFolder_iff.mpr held] at free; cases free) text.toUTF8
      refine ⟨⟨rfl, fun place => ?_⟩, ?_, ?_, ?_⟩
      · rw [Bool.eq_iff_iff, isFolder_iff, isFolder_iff, look]
        split
        · rename_i here
          rw [here, ← isFolder_iff, free]
          simp
        · exact Iff.rfl
      · exact List.forall_mem_singleton.mpr ⟨fits, above, reached, ready⟩
      · intro place reached' name' text' found
        rw [reached, Option.some.injEq] at reached'
        subst reached'
        obtain ⟨rfl, rfl⟩ : name = name' ∧ text = text' := by
          simpa [Entries.value?] using found
        rw [look, if_pos rfl]
      · intro place apart
        rw [look, if_neg (apart above reached _ (List.mem_singleton.mpr rfl))]

structure Grows (disk other : MemoryDisk) : Prop where
  working : other.working = disk.working
  kept : ∀ place held, disk.root.look place = some held → other.root.look place = some held

theorem Grows.refl (disk : MemoryDisk) : disk.Grows disk := ⟨rfl, fun _ _ held => held⟩

theorem Grows.trans (first : disk.Grows next) (second : next.Grows other) : disk.Grows other :=
  ⟨second.working.trans first.working,
    fun place held there => second.kept place held (first.kept place held there)⟩

theorem grows_makeFolder (made : disk.makeFolder path = some other) : disk.Grows other := by
  obtain ⟨place, -, done⟩ := Option.bind_eq_some_iff.mp made
  split at done
  · cases done
    exact .refl disk
  · cases done
  · rename_i missing
    split at done
    · cases done
    · cases done
      exact ⟨rfl, fun _ _ there => Node.look_plant_folder missing there⟩

end MemoryDisk

variable {disk next : MemoryDisk} {folder : String} {made : Bool}

theorem run_makeFolder_of_some (first : disk.makeFolder folder = some next) :
    (Disk.makeFolder folder : StateM MemoryDisk Bool) disk = (true, next) := by
  change MemoryDisk.settle (fun disk => disk.makeFolder folder) disk = _
  rw [MemoryDisk.settle, first]

theorem run_makeFolder_of_none (first : disk.makeFolder folder = none) :
    (Disk.makeFolder folder : StateM MemoryDisk Bool) disk = (false, disk) := by
  change MemoryDisk.settle (fun disk => disk.makeFolder folder) disk = _
  rw [MemoryDisk.settle, first]

theorem grows_makeEach {folders : List String}
    (done : (makeEach folders : StateM MemoryDisk Bool) disk = (made, next)) : disk.Grows next := by
  induction folders generalizing disk with
  | nil =>
      cases done
      exact .refl _
  | cons folder rest ih =>
      rw [makeEach] at done
      cases first : disk.makeFolder folder with
      | none =>
          rw [bind_of_eq _ (run_makeFolder_of_none first)] at done
          cases done
          exact .refl _
      | some middle =>
          rw [bind_of_eq _ (run_makeFolder_of_some first)] at done
          exact (MemoryDisk.grows_makeFolder first).trans (ih done)

/-- Making folders loses nothing, even if some folder on the way cannot be made. -/
theorem grows_makeFolders
    (done : (makeFolders folder : StateM MemoryDisk Bool) disk = (made, next)) : disk.Grows next := by
  rw [makeFolders] at done
  split at done
  · cases done
    exact .refl _
  · split at done
    · exact grows_makeEach done
    · cases done
      exact .refl _

end DesignTokens.Build
