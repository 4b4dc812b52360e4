import DesignTokens.Proofs.Document.Alike
import DesignTokens.Proofs.Toml.Writable
import DesignTokens.Toml.Layout

/-!
What the statements of a document lay out: in every table the plain values first, and then the tables
below it. The sections that a value brings are laid out under its name and touch nothing else.
-/

namespace DesignTokens.Toml

def plainEntries (entries : Entries Document) : Entries Document :=
  entries.filter fun entry => !isSection entry.2

mutual

/-- A document as it is laid out. What stands in a pair stays as it is. -/
def arrange : Document → Document
  | .array items => if items.all isObject then .array (arrangeItems items) else .array items
  | .object entries => .object (plainEntries entries ++ arrangeSections entries)
  | other => other

def arrangeItems : List Document → List Document
  | [] => []
  | item :: rest => arrange item :: arrangeItems rest

def arrangeSections : List (String × Document) → List (String × Document)
  | [] => []
  | (name, value) :: rest =>
      if isSection value then (name, arrange value) :: arrangeSections rest
      else arrangeSections rest

end

variable {name : String} {value : Document} {entries : Entries Document} {items : List Document}
  {laid table : Entries Item} {origin : Origin} {part : Section} {parts : List Section}

theorem arrangeItems_eq (items : List Document) : arrangeItems items = items.map arrange := by
  induction items with
  | nil => rfl
  | cons item rest ih => rw [arrangeItems, ih, List.map_cons]

theorem arrangeSections_eq (entries : Entries Document) :
    arrangeSections entries =
      (entries.filter fun entry => isSection entry.2).map fun entry => (entry.1, arrange entry.2) := by
  induction entries with
  | nil => rfl
  | cons entry rest ih =>
      obtain ⟨name, value⟩ := entry
      rw [arrangeSections, ih]
      cases held : isSection value <;> simp [held]

theorem names_arrangeSections (entries : Entries Document) :
    Entries.names (arrangeSections entries) =
      Entries.names (entries.filter fun entry => isSection entry.2) := by
  rw [arrangeSections_eq, Entries.names, List.map_map]
  rfl

theorem names_arrangeSections_sublist (entries : Entries Document) :
    (Entries.names (arrangeSections entries)).Sublist entries.names := by
  rw [names_arrangeSections]
  exact List.filter_sublist.map _

theorem plainPairs_eq (entries : Entries Document) :
    plainPairs entries = (plainEntries entries).map fun entry => ⟨[entry.1], entry.2⟩ := by
  induction entries with
  | nil => rfl
  | cons entry rest ih =>
      obtain ⟨name, value⟩ := entry
      rw [plainPairs, ih]
      cases held : isSection value <;> simp [plainEntries, held]

def plainItems (entries : Entries Document) : Entries Item :=
  (plainEntries entries).map fun entry => (entry.1, .value entry.2)

theorem addPairs_singletons (more : Entries Document)
    (distinct : (table.names ++ more.names).Nodup) :
    addPairs table (more.map fun entry => ⟨[entry.1], entry.2⟩) =
      some (table ++ more.map fun entry => (entry.1, .value entry.2)) := by
  induction more generalizing table with
  | nil => simp [addPairs]
  | cons entry rest ih =>
      have fresh : table.value? entry.1 = none := by
        rw [Entries.value?_eq_none]
        exact Entries.not_mem_of_nodup_append_cons distinct
      have added : addPair table ⟨[entry.1], entry.2⟩ = some (table ++ [(entry.1, .value entry.2)]) := by
        simp [addPair, changeAt, addValue, fresh]
      have others : (Entries.names (table ++ [(entry.1, Item.value entry.2)]) ++
          Entries.names rest).Nodup := by
        simpa [Entries.names] using distinct
      rw [List.map_cons, addPairs, List.foldlM_cons, added]
      have later := ih others
      rw [addPairs] at later
      simpa using later

theorem addPairs_plainPairs (distinct : entries.names.Nodup) :
    addPairs [] (plainPairs entries) = some (plainItems entries) := by
  have kept : (Entries.names ([] : Entries Item) ++ (plainEntries entries).names).Nodup :=
    Entries.names_filter_nodup _ distinct
  rw [plainPairs_eq, addPairs_singletons _ kept]
  rfl

theorem changeAt_cons (byDots : Bool) (change : Change) (name : String) (rest : List String) :
    changeAt byDots change (name :: rest) = changeAt byDots (changeAt byDots change rest) [name] := by
  funext origin entries
  simp only [changeAt]

def Change.andThen (first second : Change) : Change := fun origin entries =>
  (first origin entries).bind (second origin)

theorem changeAt_andThen (first second : Change) (name : String) :
    changeAt false (first.andThen second) [name] =
      (changeAt false first [name]).andThen (changeAt false second [name]) := by
  funext origin entries
  simp only [Change.andThen, changeAt]
  cases held : entries.value? name with
  | none =>
      cases begun : first .implied [] with
      | none => simp [begun]
      | some inner => simp [begun, Entries.value?_put_self, Entries.put_put]
  | some item =>
      cases item with
      | value document => rfl
      | table place inner =>
          cases begun : first place inner with
          | none => simp [begun]
          | some inner => simp [begun, Entries.value?_put_self, Entries.put_put]
      | tables elements =>
          cases tail : elements.getLast? with
          | none => simp [tail]
          | some last =>
              cases begun : first .named last with
              | none => simp [tail, begun]
              | some inner => simp [tail, begun, Entries.value?_put_self, Entries.put_put]

def Header.place : Header → List String
  | .table path => path
  | .element path => path

def Header.under (name : String) : Header → Header
  | .table path => .table (name :: path)
  | .element path => .element (name :: path)

def Section.under (name : String) (part : Section) : Section :=
  { part with header := part.header.under name }

/-- What the last name of a header asks for. -/
def Section.last (part : Section) (name : String) : Change :=
  match part.header with
  | .table _ => nameTable part.pairs name
  | .element _ => addElement part.pairs name

def Section.lay (part : Section) : Change := fun origin entries =>
  match part.header.place.getLast? with
  | none => none
  | some name => changeAt false (part.last name) part.header.place.dropLast origin entries

def layAll : List Section → Change
  | [] => fun _ entries => some entries
  | part :: rest => part.lay.andThen (layAll rest)

theorem addSection_eq (entries : Entries Item) (part : Section) :
    addSection entries part = part.lay .named entries := by
  obtain ⟨header, pairs⟩ := part
  cases header <;> rfl

theorem foldlM_addSection (entries : Entries Item) (parts : List Section) :
    parts.foldlM addSection entries = layAll parts .named entries := by
  induction parts generalizing entries with
  | nil => rfl
  | cons part rest ih =>
      rw [List.foldlM_cons, addSection_eq, layAll, Change.andThen]
      cases part.lay .named entries with
      | none => rfl
      | some next => exact ih next

theorem layAll_append (first second : List Section) :
    layAll (first ++ second) = (layAll first).andThen (layAll second) := by
  induction first with
  | nil => rfl
  | cons part rest ih =>
      funext origin entries
      rw [List.cons_append, layAll, layAll, ih]
      simp only [Change.andThen]
      cases part.lay origin entries <;> rfl

theorem place_under (name : String) (part : Section) :
    (part.under name).header.place = name :: part.header.place := by
  obtain ⟨header, pairs⟩ := part
  cases header <;> rfl

theorem last_under (name : String) (part : Section) : (part.under name).last = part.last := by
  obtain ⟨header, pairs⟩ := part
  cases header <;> rfl

theorem lay_of_last {last : String} (tail : part.header.place.getLast? = some last) :
    part.lay = changeAt false (part.last last) part.header.place.dropLast := by
  funext origin entries
  simp only [Section.lay, tail]

theorem lay_under (name : String) (part : Section) (proper : part.header.place ≠ []) :
    (part.under name).lay = changeAt false part.lay [name] := by
  obtain ⟨last, tail⟩ := Option.ne_none_iff_exists'.mp (mt List.getLast?_eq_none_iff.mp proper)
  have behind : (part.under name).header.place.getLast? = some last := by
    rw [place_under, List.getLast?_cons, tail]
    rfl
  calc
    (part.under name).lay
      = changeAt false (part.last last) (name :: part.header.place).dropLast := by
        rw [lay_of_last behind, place_under, last_under]
    _ = changeAt false (changeAt false (part.last last) part.header.place.dropLast) [name] := by
        rw [List.dropLast_cons_of_ne_nil proper, changeAt_cons]
    _ = changeAt false part.lay [name] := by rw [lay_of_last tail]

theorem layAll_singleton (part : Section) : layAll [part] = part.lay := by
  funext origin entries
  rw [layAll, Change.andThen]
  cases part.lay origin entries <;> rfl

theorem layAll_under (name : String) (some : parts ≠ [])
    (proper : ∀ part ∈ parts, part.header.place ≠ []) :
    layAll (parts.map (Section.under name)) = changeAt false (layAll parts) [name] := by
  induction parts with
  | nil => exact absurd rfl some
  | cons part rest ih =>
      obtain ⟨first, others⟩ := List.forall_mem_cons.mp proper
      cases rest with
      | nil =>
          rw [List.map_singleton, layAll_singleton, layAll_singleton, lay_under name part first]
      | cons next rest =>
          rw [List.map_cons, layAll, ih (List.cons_ne_nil next rest) others, lay_under name part first,
            ← changeAt_andThen]
          rfl

theorem sectionsAt_headless (path : List String) (filled : entries ≠ []) (none : plainPairs entries = []) :
    sectionsAt path (.object entries) = sectionsBelow path entries := by
  cases entries with
  | nil => exact absurd rfl filled
  | cons entry rest => simp only [sectionsAt, none]

theorem headed_of_not_headless (headless : ¬ (entries ≠ [] ∧ plainPairs entries = [])) :
    entries = [] ∨ plainPairs entries ≠ [] := by
  by_cases empty : entries = []
  · exact .inl empty
  · exact .inr fun none => headless ⟨empty, none⟩

theorem sectionsAt_headed (path : List String) (header : entries = [] ∨ plainPairs entries ≠ []) :
    sectionsAt path (.object entries) =
      ⟨.table path, plainPairs entries⟩ :: sectionsBelow path entries := by
  cases entries with
  | nil => rfl
  | cons entry rest =>
      have some := header.resolve_left (List.cons_ne_nil entry rest)
      simp only [sectionsAt]
      cases held : plainPairs (entry :: rest) with
      | nil => exact absurd held some
      | cons pair pairs => rfl

mutual

theorem sectionsAt_cons (name : String) (path : List String) : (value : Document) →
    sectionsAt (name :: path) value = (sectionsAt path value).map (Section.under name)
  | .object entries => by
      have below := sectionsBelow_cons name path entries
      by_cases headless : entries ≠ [] ∧ plainPairs entries = []
      · rw [sectionsAt_headless _ headless.1 headless.2, sectionsAt_headless _ headless.1 headless.2,
          below]
      · have header := headed_of_not_headless headless
        rw [sectionsAt_headed _ header, sectionsAt_headed _ header, below]
        rfl
  | .array items => by
      simp only [sectionsAt]
      split
      · exact elementsAt_cons name path items
      · rfl
  | .null => rfl
  | .bool _ => rfl
  | .number _ => rfl
  | .text _ => rfl

theorem sectionsBelow_cons (name : String) (path : List String) : (entries : Entries Document) →
    sectionsBelow (name :: path) entries = (sectionsBelow path entries).map (Section.under name)
  | [] => rfl
  | (key, value) :: rest => by
      simp only [sectionsBelow, List.map_append, List.cons_append]
      rw [sectionsAt_cons name (path ++ [key]) value, sectionsBelow_cons name path rest]

theorem elementsAt_cons (name : String) (path : List String) : (items : List Document) →
    elementsAt (name :: path) items = (elementsAt path items).map (Section.under name)
  | [] => rfl
  | .object entries :: rest => by
      simp only [elementsAt, List.map_cons, List.map_append]
      rw [sectionsBelow_cons name path entries, elementsAt_cons name path rest]
      rfl
  | .array _ :: rest => elementsAt_cons name path rest
  | .null :: rest => elementsAt_cons name path rest
  | .bool _ :: rest => elementsAt_cons name path rest
  | .number _ :: rest => elementsAt_cons name path rest
  | .text _ :: rest => elementsAt_cons name path rest

end

theorem place_ne_nil_of_sectionsBelow : ∀ part ∈ sectionsBelow [] entries, part.header.place ≠ [] := by
  induction entries with
  | nil => exact List.forall_mem_nil _
  | cons entry rest ih =>
      obtain ⟨name, value⟩ := entry
      intro part member
      rw [sectionsBelow, List.nil_append, sectionsAt_cons] at member
      rcases List.mem_append.mp member with here | later
      · obtain ⟨part, -, rfl⟩ := List.mem_map.mp here
        rw [place_under]
        exact List.cons_ne_nil _ _
      · exact ih part later

theorem isSection_tables (some : items ≠ []) (objects : ∀ item ∈ items, isObject item = true) :
    isSection (.array items) = true := by
  rw [isSection, List.all_eq_true.mpr objects]
  simpa using some

theorem sectionsAt_of_plain (path : List String) (plain : isSection value = false) :
    sectionsAt path value = [] := by
  cases value with
  | array items =>
      rw [isSection, Bool.and_eq_false_iff, Bool.not_eq_false', List.isEmpty_iff] at plain
      rcases plain with rfl | mixed
      · rfl
      · rw [sectionsAt, mixed, if_neg Bool.false_ne_true]
  | object entries => cases plain
  | _ => rfl

/-- The entries of a table are laid out, whatever brought the table about. -/
structure Laid (entries : Entries Document) (laid : Entries Item) : Prop where
  arranged : entriesToDocuments laid = plainEntries entries ++ arrangeSections entries
  lays : ∀ origin, layAll (sectionsBelow [] entries) origin (plainItems entries) = some laid

def Lays : Document → Prop
  | .object entries => (Entries.names entries).Nodup ∧ ∃ laid, Laid entries laid
  | .array items => items.all isObject = true → ∀ item ∈ items,
      ∃ entries laid, item = .object entries ∧ (Entries.names entries).Nodup ∧
        Laid entries laid
  | _ => True

def LaysAt (name : String) (value : Document) (item : Item) : Prop :=
  item.toDocument = arrange value ∧ ∀ origin table, Entries.value? name table = none →
    layAll (sectionsAt [name] value) origin table = some (table ++ [(name, item)])

theorem entriesToDocuments_eq (table : Entries Item) :
    entriesToDocuments table = table.map fun entry => (entry.1, entry.2.toDocument) := by
  induction table with
  | nil => rfl
  | cons entry rest ih => rw [entriesToDocuments, ih, List.map_cons]

theorem layAll_below (held : Laid entries laid) (fresh : table.value? name = none) (origin : Origin) :
    layAll (sectionsBelow [name] entries) origin
        (table ++ [(name, .table .named (plainItems entries))]) =
      some (table ++ [(name, .table .named laid)]) := by
  rw [sectionsBelow_cons]
  by_cases none : sectionsBelow [] entries = []
  · have same := held.lays origin
    rw [none, layAll, Option.some.injEq] at same
    rw [none, same]
    rfl
  · rw [layAll_under name none place_ne_nil_of_sectionsBelow]
    simp [changeAt, Entries.value?_append_self fresh, held.lays, Entries.put_append_self fresh]

theorem plainItems_of_headless (none : plainPairs entries = []) :
    plainEntries entries = [] ∧ plainItems entries = [] := by
  rw [plainPairs_eq, List.map_eq_nil_iff] at none
  rw [plainItems, none]
  exact ⟨rfl, rfl⟩

theorem sectionsBelow_ne_nil (filled : entries ≠ []) (none : plainPairs entries = [])
    (held : Laid entries laid) : sectionsBelow [] entries ≠ [] := by
  intro nothing
  obtain ⟨noEntries, noItems⟩ := plainItems_of_headless none
  have same := held.lays .implied
  rw [nothing, noItems, layAll, Option.some.injEq] at same
  have arranged := held.arranged
  rw [← same, noEntries, List.nil_append] at arranged
  cases entries with
  | nil => exact filled rfl
  | cons entry rest =>
      obtain ⟨name, value⟩ := entry
      cases held : isSection value with
      | true => simp [arrangeSections, held, entriesToDocuments] at arranged
      | false => simp [plainPairs, held] at none

theorem laysAt_table (name : String) (distinct : (Entries.names entries).Nodup)
    (held : Laid entries laid) : ∃ item, LaysAt name (.object entries) item := by
  have arranged : ∀ origin, (Item.table origin laid).toDocument = arrange (.object entries) := by
    intro origin
    rw [Item.toDocument, held.arranged, arrange]
  by_cases headless : entries ≠ [] ∧ plainPairs entries = []
  · refine ⟨.table .implied laid, arranged _, fun origin table fresh => ?_⟩
    have nothing := (plainItems_of_headless headless.2).2
    have filled := sectionsBelow_ne_nil headless.1 headless.2 held
    have lays := held.lays .implied
    rw [nothing] at lays
    rw [sectionsAt_headless _ headless.1 headless.2, sectionsBelow_cons,
      layAll_under name filled place_ne_nil_of_sectionsBelow]
    simp [changeAt, fresh, lays, Entries.put_of_fresh _ (Entries.value?_eq_none.mp fresh)]
  · have header := headed_of_not_headless headless
    refine ⟨.table .named laid, arranged _, fun origin table fresh => ?_⟩
    have first : (⟨.table [name], plainPairs entries⟩ : Section).lay origin table =
        some (table ++ [(name, .table .named (plainItems entries))]) := by
      rw [lay_of_last rfl]
      simp [changeAt, Section.last, nameTable, Header.place, fresh, addPairs_plainPairs distinct,
        Entries.put_of_fresh _ (Entries.value?_eq_none.mp fresh)]
    rw [sectionsAt_headed _ header, layAll, Change.andThen, first, Option.bind_some]
    exact layAll_below held fresh origin

def withElements (name : String) (elements : List (Entries Item)) (table : Entries Item) :
    Entries Item :=
  if elements = [] then table else table ++ [(name, .tables elements)]

theorem withElements_append (name : String) (elements : List (Entries Item))
    (last : Entries Item) (table : Entries Item) :
    withElements name (elements ++ [last]) table = table ++ [(name, .tables (elements ++ [last]))] :=
  if_neg (List.append_ne_nil_of_right_ne_nil _ (List.cons_ne_nil _ _))

variable {elements : List (Entries Item)}

theorem lay_element (distinct : (Entries.names entries).Nodup) (fresh : table.value? name = none)
    (origin : Origin) :
    (⟨.element [name], plainPairs entries⟩ : Section).lay origin (withElements name elements table) =
      some (withElements name (elements ++ [plainItems entries]) table) := by
  rw [lay_of_last rfl, withElements_append, withElements]
  split
  · rename_i none
    simp [changeAt, Section.last, addElement, Header.place, fresh, addPairs_plainPairs distinct, none,
      Entries.put_of_fresh _ (Entries.value?_eq_none.mp fresh)]
  · simp [changeAt, Section.last, addElement, Header.place, Entries.value?_append_self fresh,
      addPairs_plainPairs distinct, Entries.put_append_self fresh]

theorem layAll_below_element (held : Laid entries laid) (fresh : table.value? name = none)
    (origin : Origin) :
    layAll (sectionsBelow [name] entries) origin
        (withElements name (elements ++ [plainItems entries]) table) =
      some (withElements name (elements ++ [laid]) table) := by
  rw [sectionsBelow_cons, withElements_append, withElements_append]
  by_cases none : sectionsBelow [] entries = []
  · have same := held.lays origin
    rw [none, layAll, Option.some.injEq] at same
    rw [none, same]
    rfl
  · rw [layAll_under name none place_ne_nil_of_sectionsBelow]
    simp [changeAt, Entries.value?_append_self fresh, held.lays, Entries.put_append_self fresh]

theorem layAll_elements (name : String)
    (each : ∀ item ∈ items, ∃ entries laid, item = .object entries ∧
      (Entries.names entries).Nodup ∧ Laid entries laid) :
    ∃ added, elementsToDocuments added = items.map arrange ∧
      ∀ origin table elements, Entries.value? name table = none →
        layAll (elementsAt [name] items) origin (withElements name elements table) =
          some (withElements name (elements ++ added) table) := by
  induction items with
  | nil => exact ⟨[], rfl, fun origin table elements fresh => by rw [List.append_nil]; rfl⟩
  | cons item rest ih =>
      obtain ⟨⟨entries, laid, rfl, distinct, held⟩, others⟩ := List.forall_mem_cons.mp each
      obtain ⟨added, documents, lays⟩ := ih others
      refine ⟨laid :: added, ?_, fun origin table elements fresh => ?_⟩
      · rw [elementsToDocuments, documents, held.arranged, List.map_cons, arrange]
      · rw [elementsAt, layAll, Change.andThen, lay_element distinct fresh, Option.bind_some,
          layAll_append, Change.andThen, layAll_below_element held fresh, Option.bind_some,
          lays origin table _ fresh, List.append_assoc, List.singleton_append]

theorem laysAt_tables (name : String) (some : items ≠ []) (objects : items.all isObject = true)
    (each : ∀ item ∈ items, ∃ entries laid, item = .object entries ∧
      (Entries.names entries).Nodup ∧ Laid entries laid) :
    ∃ item, LaysAt name (.array items) item := by
  obtain ⟨added, documents, lays⟩ := layAll_elements name each
  have filled : added ≠ [] := by
    rintro rfl
    rw [elementsToDocuments] at documents
    exact some (List.map_eq_nil_iff.mp documents.symm)
  refine ⟨.tables added, ?_, fun origin table fresh => ?_⟩
  · rw [Item.toDocument, documents, arrange, if_pos objects, arrangeItems_eq]
  · have all := lays origin table [] fresh
    rw [List.nil_append] at all
    rw [sectionsAt, if_pos objects]
    simpa [withElements, filled] using all

theorem laysAt_of_lays (name : String) (lays : Lays value) (table : isSection value = true) :
    ∃ item, LaysAt name value item := by
  cases value with
  | object entries =>
      obtain ⟨distinct, laid, held⟩ := lays
      exact laysAt_table name distinct held
  | array items =>
      obtain ⟨some, objects⟩ := Bool.and_eq_true_iff.mp table
      exact laysAt_tables name (by simpa using some) objects (lays objects)
  | _ => cases table

theorem layAll_sectionsBelow (distinct : (Entries.names entries).Nodup)
    (each : ∀ entry ∈ entries, Lays entry.2) :
    ∃ items, entriesToDocuments items = arrangeSections entries ∧ ∀ origin table,
      (∀ name ∈ Entries.names (arrangeSections entries), Entries.value? name table = none) →
        layAll (sectionsBelow [] entries) origin table = some (table ++ items) := by
  induction entries with
  | nil => exact ⟨[], rfl, fun origin table fresh => by rw [List.append_nil]; rfl⟩
  | cons entry rest ih =>
      obtain ⟨name, value⟩ := entry
      obtain ⟨first, others⟩ := List.forall_mem_cons.mp each
      obtain ⟨new, later⟩ := List.nodup_cons.mp distinct
      obtain ⟨items, documents, lays⟩ := ih later others
      rw [arrangeSections, sectionsBelow, List.nil_append]
      cases held : isSection value with
      | false =>
          rw [sectionsAt_of_plain _ held]
          exact ⟨items, documents, lays⟩
      | true =>
          obtain ⟨item, arranged, here⟩ := laysAt_of_lays name first held
          refine ⟨(name, item) :: items, ?_, fun origin table fresh => ?_⟩
          · rw [entriesToDocuments, arranged, documents]
            rfl
          · obtain ⟨freshName, freshRest⟩ := List.forall_mem_cons.mp fresh
            rw [layAll_append, Change.andThen, here origin table freshName, Option.bind_some, lays,
              List.append_assoc, List.singleton_append]
            intro other member
            have different : other ≠ name := by
              rintro rfl
              exact new ((names_arrangeSections_sublist rest).subset member)
            have absent := Entries.value?_eq_none.mp (freshRest other member)
            apply Entries.value?_eq_none.mpr
            simpa [Entries.names, different] using absent

theorem names_plainItems (entries : Entries Document) :
    Entries.names (plainItems entries) = (plainEntries entries).names := by
  rw [Entries.names, plainItems, List.map_map]
  rfl

theorem names_apart (distinct : (Entries.names entries).Nodup)
    (member : name ∈ Entries.names (arrangeSections entries)) :
    name ∉ (plainEntries entries).names := by
  induction entries with
  | nil => cases member
  | cons entry rest ih =>
      obtain ⟨other, value⟩ := entry
      obtain ⟨new, later⟩ := List.nodup_cons.mp distinct
      rw [arrangeSections] at member
      cases held : isSection value with
      | true =>
          rw [held, if_pos rfl] at member
          have same : plainEntries ((other, value) :: rest) = plainEntries rest := by
            simp [plainEntries, held]
          rw [same]
          rcases List.mem_cons.mp member with rfl | behind
          · exact fun plain => new ((List.filter_sublist.map _).subset plain)
          · exact ih later behind
      | false =>
          rw [held, if_neg Bool.false_ne_true] at member
          have same : plainEntries ((other, value) :: rest) = (other, value) :: plainEntries rest := by
            simp [plainEntries, held]
          rw [same, Entries.names, List.map_cons, List.mem_cons, not_or]
          refine ⟨?_, ih later member⟩
          rintro rfl
          exact new ((names_arrangeSections_sublist rest).subset member)

theorem exists_laid (distinct : (Entries.names entries).Nodup)
    (each : ∀ entry ∈ entries, Lays entry.2) : ∃ laid, Laid entries laid := by
  obtain ⟨items, documents, lays⟩ := layAll_sectionsBelow distinct each
  refine ⟨plainItems entries ++ items, ?_, fun origin => lays origin _ ?_⟩
  · rw [entriesToDocuments_eq, List.map_append, ← entriesToDocuments_eq items, documents, plainItems,
      List.map_map]
    simp [Function.comp_def, Item.toDocument]
  · intro name member
    rw [Entries.value?_eq_none, names_plainItems]
    exact names_apart distinct member

theorem lays_of_distinct (distinct : value.Distinct) : Lays value := by
  induction value using Document.induction with
  | object entries ih =>
      have each := Document.distinctEntries_iff.mp distinct.2
      exact ⟨distinct.1, exists_laid distinct.1 fun entry listed => ih entry listed (each entry listed)⟩
  | array items ih =>
      intro objects item member
      have lays := ih item member (Document.distinctItems_iff.mp distinct item member)
      have object := List.all_eq_true.mp objects item member
      cases item with
      | object entries =>
          obtain ⟨unique, laid, held⟩ := lays
          exact ⟨entries, laid, rfl, unique, held⟩
      | _ => cases object
  | _ => trivial

/-- The statements of a document lay it out, plain values first. -/
theorem toDocument_ofEntries (distinct : (Document.object entries).Distinct) :
    (Sheet.ofEntries entries).toDocument = some (arrange (.object entries)) := by
  obtain ⟨unique, laid, held⟩ := lays_of_distinct distinct
  rw [Sheet.toDocument]
  simp only [Sheet.ofEntries, addPairs_plainPairs unique, foldlM_addSection, held.lays,
    Option.bind_eq_bind, Option.bind_some, held.arranged]
  rw [arrange]

theorem arrange_of_plain (plain : isSection value = false) : arrange value = value := by
  cases value with
  | object entries => cases plain
  | array items =>
      rw [isSection, Bool.and_eq_false_iff, Bool.not_eq_false', List.isEmpty_iff] at plain
      rcases plain with rfl | mixed
      · rfl
      · rw [arrange, mixed, if_neg Bool.false_ne_true]
  | _ => rfl

theorem value?_arrange (distinct : (Entries.names entries).Nodup) (name : String) :
    (plainEntries entries ++ arrangeSections entries).value? name =
      (entries.value? name).map arrange := by
  have plain : (plainEntries entries).value? name =
      (entries.value? name).filter fun value => !isSection value :=
    Entries.value?_filter (fun value => !isSection value) distinct
  rw [Entries.value?_append, arrangeSections_eq, Entries.value?_map, Entries.value?_filter _ distinct,
    plain]
  cases found : entries.value? name with
  | none => rfl
  | some value =>
      cases held : isSection value with
      | true => simp only [Option.filter, held, Bool.not_true, Bool.false_eq_true, if_true, if_false,
          Option.none_or]
      | false =>
          have same := arrange_of_plain held
          simp only [Option.filter, held, Bool.not_false, Bool.false_eq_true, if_true, if_false,
            Option.some_or, Option.map_some, same]

theorem names_arrange_perm (entries : Entries Document) :
    (Entries.names (plainEntries entries ++ arrangeSections entries)).Perm entries.names := by
  have split : (plainEntries entries ++ entries.filter fun entry => isSection entry.2).Perm entries := by
    have parts := List.filter_append_perm (fun entry : String × Document => !isSection entry.2) entries
    simpa only [plainEntries, Bool.not_not] using parts
  rw [Entries.names, List.map_append, ← Entries.names, ← Entries.names, names_arrangeSections]
  simpa only [Entries.names, List.map_append] using split.map Prod.fst

theorem alike_arrange (distinct : value.Distinct) : value.Alike (arrange value) := by
  induction value using Document.induction with
  | array items ih =>
      rw [arrange]
      split
      · rw [arrangeItems_eq]
        refine .array (List.length_map _).symm fun i item other here there => ?_
        rw [List.getElem?_map, here, Option.map_some, Option.some.injEq] at there
        subst there
        have listed := List.mem_of_getElem? here
        exact ih item listed (Document.distinctItems_iff.mp distinct item listed)
      · exact .refl _
  | object entries ih =>
      rw [arrange]
      refine .object (names_arrange_perm entries).symm fun name value other here there => ?_
      rw [value?_arrange distinct.1, here, Option.map_some, Option.some.injEq] at there
      subst there
      have listed := Entries.mem_of_value? here
      exact ih (name, value) listed (Document.distinctEntries_iff.mp distinct.2 _ listed)
  | _ => exact .refl _

end DesignTokens.Toml
