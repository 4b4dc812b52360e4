import DesignTokens.Number.Decimal
import DesignTokens.Proofs.Document.Induction
import DesignTokens.Proofs.Document.Merging
import DesignTokens.Token.Path

/-!
The texts of a document with their places. The search for an alias looks at these texts alone, and
merging neither loses one of the changes nor makes one up.
-/

namespace DesignTokens.Token

mutual

/-- The first alias among the texts of a document and its place; elements of arrays go by number. -/
def firstAlias? : Document → Option (List String × String)
  | .text s => if isAlias s then some ([], s) else none
  | .array items => firstAliasFrom? 0 items
  | .object entries => firstAliasIn? entries
  | _ => none

def firstAliasFrom? (index : Nat) : List Document → Option (List String × String)
  | [] => none
  | item :: rest =>
      match firstAlias? item with
      | some (place, text) => some (String.ofList (Decimal.digitChars index) :: place, text)
      | none => firstAliasFrom? (index + 1) rest

def firstAliasIn? : List (String × Document) → Option (List String × String)
  | [] => none
  | (name, value) :: rest =>
      match firstAlias? value with
      | some (place, text) => some (name :: place, text)
      | none => firstAliasIn? rest

end

end DesignTokens.Token

namespace DesignTokens.Document

open Token

def under (name : String) (held : List String × String) : List String × String :=
  (name :: held.1, held.2)

mutual

/-- Every text with its place, in document order; elements of arrays go by number. -/
def texts : Document → List (List String × String)
  | .text s => [([], s)]
  | .array items => textsFrom 0 items
  | .object entries => textsIn entries
  | _ => []

def textsFrom (index : Nat) : List Document → List (List String × String)
  | [] => []
  | item :: rest =>
      (texts item).map (under (String.ofList (Decimal.digitChars index))) ++
        textsFrom (index + 1) rest

def textsIn : List (String × Document) → List (List String × String)
  | [] => []
  | (name, value) :: rest => (texts value).map (under name) ++ textsIn rest

end

def Resolved (document : Document) : Prop := ∀ held ∈ document.texts, isAlias held.2 = false

theorem find?_under (name : String) (held : List (List String × String)) :
    (held.map (under name)).find? (fun text => isAlias text.2) =
      (held.find? fun text => isAlias text.2).map (under name) := by
  rw [List.find?_map]
  rfl

mutual

theorem firstAlias?_eq : (document : Document) →
    firstAlias? document = document.texts.find? fun held => isAlias held.2
  | .text s => by
      rw [firstAlias?, texts, List.find?_singleton]
  | .array items => by rw [firstAlias?, texts, firstAliasFrom?_eq]
  | .object entries => by rw [firstAlias?, texts, firstAliasIn?_eq]
  | .null => by rw [firstAlias?, texts] <;> simp
  | .bool _ => by rw [firstAlias?, texts] <;> simp
  | .number _ => by rw [firstAlias?, texts] <;> simp

theorem firstAliasFrom?_eq (index : Nat) : (items : List Document) →
    firstAliasFrom? index items = (textsFrom index items).find? fun held => isAlias held.2
  | [] => rfl
  | item :: rest => by
      rw [firstAliasFrom?, textsFrom, List.find?_append, find?_under, firstAlias?_eq item,
        firstAliasFrom?_eq (index + 1) rest]
      cases item.texts.find? fun held => isAlias held.2 <;> rfl

theorem firstAliasIn?_eq : (entries : List (String × Document)) →
    firstAliasIn? entries = (textsIn entries).find? fun held => isAlias held.2
  | [] => rfl
  | (name, value) :: rest => by
      rw [firstAliasIn?, textsIn, List.find?_append, find?_under, firstAlias?_eq value,
        firstAliasIn?_eq rest]
      cases value.texts.find? fun held => isAlias held.2 <;> rfl

end

theorem firstAlias?_eq_none_iff {document : Document} :
    firstAlias? document = none ↔ document.Resolved := by
  rw [firstAlias?_eq, List.find?_eq_none]
  simp [Resolved]

theorem mem_texts_of_firstAlias? {document : Document} {place : List String} {s : String}
    (found : firstAlias? document = some (place, s)) :
    (place, s) ∈ document.texts ∧ isAlias s = true := by
  rw [firstAlias?_eq] at found
  have named := List.find?_some found
  exact ⟨List.mem_of_find?_eq_some found, named⟩

theorem mem_textsIn {place : List String} {s : String} {entries : Entries Document} :
    (place, s) ∈ textsIn entries ↔ ∃ name value rest, (name, value) ∈ entries ∧
      (rest, s) ∈ value.texts ∧ place = name :: rest := by
  induction entries with
  | nil => simp [textsIn]
  | cons head others ih =>
      obtain ⟨first, top⟩ := head
      rw [textsIn, List.mem_append, ih]
      constructor
      · rintro (here | ⟨name, value, rest, later, inside, rfl⟩)
        · obtain ⟨⟨rest, t⟩, inside, same⟩ := List.mem_map.mp here
          cases same
          exact ⟨first, top, rest, List.mem_cons_self, inside, rfl⟩
        · exact ⟨name, value, rest, List.mem_cons_of_mem _ later, inside, rfl⟩
      · rintro ⟨name, value, rest, present, inside, rfl⟩
        rcases List.mem_cons.mp present with here | later
        · cases here
          exact .inl (List.mem_map.mpr ⟨(rest, s), inside, rfl⟩)
        · exact .inr ⟨name, value, rest, later, inside, rfl⟩

theorem mem_texts_object {name s : String} {rest : List String} {entries : Entries Document} :
    (name :: rest, s) ∈ (object entries).texts ↔
      ∃ value, (name, value) ∈ entries ∧ (rest, s) ∈ value.texts := by
  rw [texts, mem_textsIn]
  constructor
  · rintro ⟨name', value, rest', present, inside, same⟩
    cases same
    exact ⟨value, present, inside⟩
  · rintro ⟨value, present, inside⟩
    exact ⟨name, value, rest, present, inside, rfl⟩

theorem nil_mem_texts_object {s : String} {entries : Entries Document} :
    ([], s) ∉ (object entries).texts := by
  rw [texts, mem_textsIn]
  rintro ⟨name, value, rest, -, -, same⟩
  cases same

theorem resolved_object {entries : Entries Document} :
    (object entries).Resolved ↔ ∀ entry ∈ entries, entry.2.Resolved := by
  constructor
  · intro resolved entry listed held inside
    exact resolved (entry.1 :: held.1, held.2) (mem_texts_object.mpr ⟨entry.2, listed, inside⟩)
  · intro each held listed
    obtain ⟨place, s⟩ := held
    cases place with
    | nil => exact absurd listed nil_mem_texts_object
    | cons name rest =>
        obtain ⟨value, present, inside⟩ := mem_texts_object.mp listed
        exact each (name, value) present (rest, s) inside

theorem resolved_array {items : List Document} :
    (array items).Resolved ↔ ∀ item ∈ items, item.Resolved := by
  rw [Resolved, texts]
  generalize 0 = index
  induction items generalizing index with
  | nil => simp [textsFrom]
  | cons item rest ih =>
      rw [textsFrom, List.forall_mem_append, List.forall_mem_map, List.forall_mem_cons, ih]
      rfl

theorem textsFrom_congr {f : Document → Document} {items : List Document} (index : Nat)
    (each : ∀ item ∈ items, (f item).texts = item.texts) :
    textsFrom index (items.map f) = textsFrom index items := by
  induction items generalizing index with
  | nil => rfl
  | cons item rest ih =>
      obtain ⟨first, others⟩ := List.forall_mem_cons.mp each
      rw [List.map_cons, textsFrom, textsFrom, first, ih (index + 1) others]

theorem textsIn_congr {f : Document → Document} {entries : Entries Document}
    (each : ∀ entry ∈ entries, (f entry.2).texts = entry.2.texts) :
    textsIn (entries.map fun entry => (entry.1, f entry.2)) = textsIn entries := by
  induction entries with
  | nil => rfl
  | cons head rest ih =>
      obtain ⟨first, others⟩ := List.forall_mem_cons.mp each
      rw [List.map_cons, textsIn, textsIn, first, ih others]

theorem texts_compact (document : Document) : document.compact.texts = document.texts := by
  induction document using induction with
  | null => rfl
  | bool value => rfl
  | number n => cases n <;> rfl
  | text s => rfl
  | array items ih => rw [compact, compactItems_eq, texts, texts, textsFrom_congr 0 ih]
  | object entries ih => rw [compact, compactEntries_eq, texts, texts, textsIn_congr ih]

theorem textsIn_spoken (entries : Entries Document) : textsIn (spoken entries) = textsIn entries := by
  induction entries with
  | nil => rfl
  | cons head rest ih =>
      obtain ⟨name, value⟩ := head
      cases silent : value.isNull with
      | true =>
          obtain rfl := eq_null silent
          rw [textsIn, ← ih]
          rfl
      | false => rw [spoken_cons silent, textsIn, textsIn, ih]

theorem texts_withoutNulls (document : Document) : document.withoutNulls.texts = document.texts := by
  induction document using induction with
  | object entries ih =>
      have each : ∀ entry ∈ spoken entries, entry.2.withoutNulls.texts = entry.2.texts :=
        fun entry kept => ih entry (List.mem_filter.mp kept).1
      rw [withoutNulls, withoutNullEntries_eq, texts, texts, textsIn_congr each, textsIn_spoken]
  | array items => rw [withoutNulls_leaf rfl]
  | _ => rw [withoutNulls_leaf rfl]

theorem merge_cases (base changes : Document) :
    (changes = .null ∧ merge base changes = base) ∨
      (merge base changes).texts = changes.texts ∨
      ∃ old new, base = .object old ∧ changes = .object new := by
  cases changes with
  | null => exact .inl ⟨rfl, merge_null base⟩
  | object new =>
      cases closed : base.entries? with
      | none =>
          refine .inr (.inl ?_)
          rw [merge_onto_leaf new closed, texts_withoutNulls]
      | some old => exact .inr (.inr ⟨old, new, eq_object closed, rfl⟩)
  | _ => exact .inr (.inl (by rw [merge_leaf base rfl rfl]))

theorem of_mem_mergeEntries {base changes : Entries Document} {name : String} {value : Document}
    (distinct : (Entries.names changes).Nodup) (present : (name, value) ∈ mergeEntries base changes) :
    (name, value) ∈ base ∨ ∃ change, (name, change) ∈ changes ∧ change.isNull = false ∧
      value = settled (base.value? name) change := by
  induction changes generalizing base with
  | nil =>
      rw [mergeEntries] at present
      exact .inl present
  | cons head rest ih =>
      obtain ⟨first, change⟩ := head
      obtain ⟨fresh, others⟩ := List.nodup_cons.mp distinct
      cases silent : change.isNull with
      | true =>
          obtain rfl := eq_null silent
          rw [mergeEntries_null] at present
          rcases ih others present with old | ⟨change, later, speaks, same⟩
          · exact .inl old
          · exact .inr ⟨change, List.mem_cons_of_mem _ later, speaks, same⟩
      | false =>
          rw [mergeEntries_cons silent] at present
          rcases ih others present with old | ⟨change', later, speaks, same⟩
          · rcases Entries.of_mem_put old with ⟨rfl, rfl⟩ | old
            · exact .inr ⟨change, List.mem_cons_self, silent, rfl⟩
            · exact .inl old
          · have other : name ≠ first := by
              rintro rfl
              exact fresh (List.mem_map.mpr ⟨_, later, rfl⟩)
            rw [Entries.value?_put_of_ne other] at same
            exact .inr ⟨change', List.mem_cons_of_mem _ later, speaks, same⟩

theorem texts_settled (existing : Option Document) (change : Document) :
    (settled existing change).texts = ((existing.getD .null).merge change).texts := by
  cases existing with
  | none =>
      rcases merge_cases .null change with ⟨rfl, same⟩ | same | ⟨old, new, closed, -⟩
      · rfl
      · rw [settled, texts_withoutNulls, Option.getD_none, same]
      · cases closed
  | some existing => rfl

/-- Merging makes no texts up: each stands at its place in the base or in the changes. -/
theorem of_mem_texts_merge {base changes : Document} {place : List String} {s : String}
    (distinct : changes.Distinct) (held : (place, s) ∈ (merge base changes).texts) :
    (place, s) ∈ base.texts ∨ (place, s) ∈ changes.texts := by
  induction place generalizing base changes with
  | nil =>
      rcases merge_cases base changes with ⟨-, same⟩ | same | ⟨old, new, rfl, rfl⟩
      · exact .inl (same ▸ held)
      · exact .inr (same ▸ held)
      · rw [merge_objects] at held
        exact absurd held nil_mem_texts_object
  | cons name rest ih =>
      rcases merge_cases base changes with ⟨-, same⟩ | same | ⟨old, new, rfl, rfl⟩
      · exact .inl (same ▸ held)
      · exact .inr (same ▸ held)
      · rw [merge_objects, mem_texts_object] at held
        obtain ⟨value, present, inside⟩ := held
        rw [mem_texts_object, mem_texts_object]
        rcases of_mem_mergeEntries distinct.names_nodup present with there | ⟨change, given, -, rfl⟩
        · exact .inl ⟨value, there, inside⟩
        · have below := distinctEntries_iff.mp distinct.2 _ given
          rw [texts_settled] at inside
          rcases ih below inside with there | here
          · cases known : Entries.value? name old with
            | none => simp [known, texts] at there
            | some existing =>
                rw [known, Option.getD_some] at there
                exact .inl ⟨existing, Entries.mem_of_value? known, there⟩
          · exact .inr ⟨change, given, here⟩

theorem mem_texts_merge {base changes : Document} {place : List String} {s : String}
    (distinct : changes.Distinct) (held : (place, s) ∈ changes.texts) :
    (place, s) ∈ (merge base changes).texts := by
  induction place generalizing base changes with
  | nil =>
      rcases merge_cases base changes with ⟨rfl, -⟩ | same | ⟨old, new, rfl, rfl⟩
      · simp [texts] at held
      · exact same ▸ held
      · exact absurd held nil_mem_texts_object
  | cons name rest ih =>
      rcases merge_cases base changes with ⟨rfl, -⟩ | same | ⟨old, new, rfl, rfl⟩
      · simp [texts] at held
      · exact same ▸ held
      · obtain ⟨change, given, inside⟩ := mem_texts_object.mp held
        have named := Entries.value?_of_mem distinct.names_nodup given
        have speaks : change.isNull = false := by
          cases change with
          | null => simp [texts] at inside
          | _ => rfl
        rw [merge_objects, mem_texts_object]
        refine ⟨settled (Entries.value? name old) change, Entries.mem_of_value?
          (value?_mergeEntries_of_spoken distinct.names_nodup named speaks), ?_⟩
        rw [texts_settled]
        exact ih (distinctEntries_iff.mp distinct.2 _ given) inside

end DesignTokens.Document
