import DesignTokens.Proofs.Document.Compaction
import DesignTokens.Proofs.Document.Texts

/-!
Documents that differ in nothing but the order in which the entries of their objects stand. They hold
the same texts, and their value forms differ in nothing else either.
-/

namespace DesignTokens.Document

/-- The same value, whatever the order of entries, in objects and arrays at every depth. -/
inductive Alike : Document → Document → Prop
  | null : Alike .null .null
  | bool (value : Bool) : Alike (.bool value) (.bool value)
  | number (n : Number) : Alike (.number n) (.number n)
  | text (s : String) : Alike (.text s) (.text s)
  | array {items others : List Document} (length : items.length = others.length)
      (each : ∀ (i : Nat) item other, items[i]? = some item → others[i]? = some other → Alike item other) :
      Alike (.array items) (.array others)
  | object {entries others : Entries Document} (names : entries.names.Perm others.names)
      (each : ∀ name value other, entries.value? name = some value →
        others.value? name = some other → Alike value other) :
      Alike (.object entries) (.object others)

variable {entries others : Entries Document} {name s : String} {value document other : Document}

theorem exists_value?_of_perm (names : entries.names.Perm others.names)
    (found : entries.value? name = some value) : ∃ other, others.value? name = some other := by
  have listed : name ∈ others.names := names.mem_iff.mp (Entries.mem_names_of_value? found)
  cases held : others.value? name with
  | none => exact absurd listed (Entries.value?_eq_none.mp held)
  | some other => exact ⟨other, rfl⟩

theorem Alike.value? (alike : (Document.object entries).Alike document)
    (found : entries.value? name = some value) :
    ∃ (others : Entries Document) (other : Document), document = .object others ∧
      others.value? name = some other ∧ value.Alike other := by
  cases alike with
  | @object _ others names each =>
      obtain ⟨other, there⟩ := exists_value?_of_perm names found
      exact ⟨others, other, rfl, there, each name value other found there⟩

theorem Alike.refl (document : Document) : document.Alike document := by
  induction document using induction with
  | null => exact .null
  | bool value => exact .bool value
  | number n => exact .number n
  | text s => exact .text s
  | array items ih =>
      refine .array rfl fun i item other here there => ?_
      obtain rfl := Option.some.inj (here.symm.trans there)
      exact ih item (List.mem_of_getElem? here)
  | object entries ih =>
      refine .object (List.Perm.refl _) fun name value other here there => ?_
      obtain rfl := Option.some.inj (here.symm.trans there)
      exact ih (name, value) (Entries.mem_of_value? here)

theorem Alike.rel_refl (held : Option Document) : Option.Rel Alike held held := by
  cases held with
  | none => exact .none
  | some value => exact .some (.refl value)

theorem Alike.of_perm (distinct : entries.names.Nodup) (same : entries.Perm others) :
    (Document.object entries).Alike (.object others) := by
  have names : entries.names.Perm others.names := same.map Prod.fst
  refine .object names fun name value other here there => ?_
  have listed : (name, value) ∈ others := same.mem_iff.mp (Entries.mem_of_value? here)
  rw [Entries.value?_of_mem (names.nodup_iff.mp distinct) listed] at there
  cases there
  exact .refl value

theorem Alike.of_rel (distinct : entries.names.Nodup) (distinct' : others.names.Nodup)
    (rel : ∀ name, Option.Rel Alike (entries.value? name) (others.value? name)) :
    (Document.object entries).Alike (.object others) := by
  refine .object ((List.perm_ext_iff_of_nodup distinct distinct').mpr fun name => ?_) ?_
  · rw [← Decidable.not_iff_not, ← Entries.value?_eq_none, ← Entries.value?_eq_none]
    have both := rel name
    generalize entries.value? name = here at both
    generalize others.value? name = there at both
    cases both <;> simp
  · intro name value other here there
    have both := rel name
    rw [here, there] at both
    cases both with
    | some alike => exact alike

theorem Alike.compact (alike : document.Alike other) : document.compact.Alike other.compact := by
  induction alike with
  | @array items others length each ih =>
      rw [Document.compact, Document.compact, compactItems_eq, compactItems_eq]
      refine .array (by simpa using length) fun i item other here there => ?_
      rw [List.getElem?_map, Option.map_eq_some_iff] at here there
      obtain ⟨first, present, rfl⟩ := here
      obtain ⟨second, present', rfl⟩ := there
      exact ih i first second present present'
  | @object entries others names each ih =>
      refine .object (by simpa only [names_compactEntries] using names) ?_
      intro name value other here there
      rw [value?_compactEntries, Option.map_eq_some_iff] at here there
      obtain ⟨first, found, rfl⟩ := here
      obtain ⟨second, found', rfl⟩ := there
      exact ih name first second found found'
  | _ => exact .refl _

theorem Alike.resolved (alike : document.Alike other) (distinct : document.Distinct)
    (resolved : document.Resolved) : other.Resolved := by
  induction alike with
  | @array items others length each ih =>
      rw [resolved_array] at resolved ⊢
      intro other listed
      obtain ⟨i, there⟩ := List.mem_iff_getElem?.mp listed
      have inside : i < items.length := length ▸ (List.getElem?_eq_some_iff.mp there).1
      have here : items[i]? = some items[i] := List.getElem?_eq_getElem inside
      have held : items[i] ∈ items := List.getElem_mem inside
      exact ih i _ other here there (distinctItems_iff.mp distinct _ held) (resolved _ held)
  | @object entries others names each ih =>
      rw [resolved_object] at resolved ⊢
      intro entry listed
      have there := Entries.value?_of_mem (names.nodup_iff.mp distinct.1) listed
      obtain ⟨value, here⟩ := exists_value?_of_perm names.symm there
      have held := Entries.mem_of_value? here
      exact ih entry.1 value entry.2 here there (distinctEntries_iff.mp distinct.2 _ held)
        (resolved _ held)
  | _ => exact resolved

end DesignTokens.Document
