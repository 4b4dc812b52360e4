import DesignTokens.Proofs.Document.Distinct
import DesignTokens.Proofs.Document.Induction
import DesignTokens.Proofs.Number.Exact

/-!
Documents with their whole numbers in integer form. Compacting changes nothing but the form of
numbers, and equality notices it exactly when some number has the other form.
-/

namespace DesignTokens.Document

mutual

def AllNumbers (holds : Number → Prop) : Document → Prop
  | .number n => holds n
  | .array items => AllNumbersFrom holds items
  | .object entries => AllNumbersIn holds entries
  | _ => True

def AllNumbersFrom (holds : Number → Prop) : List Document → Prop
  | [] => True
  | item :: rest => item.AllNumbers holds ∧ AllNumbersFrom holds rest

def AllNumbersIn (holds : Number → Prop) : List (String × Document) → Prop
  | [] => True
  | (_, value) :: rest => value.AllNumbers holds ∧ AllNumbersIn holds rest

end

mutual

/-- The same structure, names and texts, and numbers of the same value in tidy form. -/
def Tidied : Document → Document → Prop
  | .null, .null => True
  | .bool a, .bool b => a = b
  | .number n, .number m => n.Tidied m
  | .text s, .text t => s = t
  | .array items, .array others => TidiedItems items others
  | .object entries, .object others => TidiedEntries entries others
  | _, _ => False

def TidiedItems : List Document → List Document → Prop
  | [], [] => True
  | a :: as, b :: bs => a.Tidied b ∧ TidiedItems as bs
  | _, _ => False

def TidiedEntries : List (String × Document) → List (String × Document) → Prop
  | [], [] => True
  | (name, a) :: as, (other, b) :: bs => name = other ∧ a.Tidied b ∧ TidiedEntries as bs
  | _, _ => False

end

variable {holds : Number → Prop} {items : List Document} {entries : Entries Document}

theorem allNumbersFrom_iff :
    AllNumbersFrom holds items ↔ ∀ item ∈ items, item.AllNumbers holds := by
  induction items with
  | nil => simp [AllNumbersFrom]
  | cons item rest ih => simp [AllNumbersFrom, ih]

theorem allNumbersIn_iff :
    AllNumbersIn holds entries ↔ ∀ entry ∈ entries, entry.2.AllNumbers holds := by
  induction entries with
  | nil => simp [AllNumbersIn]
  | cons head rest ih => simp [AllNumbersIn, ih]

theorem AllNumbers.field {name : String} {document value : Document}
    (all : document.AllNumbers holds) (found : document.field? name = some value) :
    value.AllNumbers holds := by
  obtain ⟨entries, rfl, here⟩ := field?_eq_some found
  exact allNumbersIn_iff.mp all _ (Entries.mem_of_value? here)

theorem AllNumbers.at {path : List String} {document value : Document}
    (all : document.AllNumbers holds) (found : document.at? path = some value) :
    value.AllNumbers holds := by
  induction path generalizing document with
  | nil =>
      cases found
      exact all
  | cons name rest ih =>
      obtain ⟨next, step, below⟩ := Option.bind_eq_some_iff.mp found
      exact ih (all.field step) below

theorem names_compactEntries (entries : Entries Document) :
    Entries.names (compactEntries entries) = Entries.names entries := by
  rw [compactEntries_eq]
  simp [Entries.names]

theorem value?_compactEntries (name : String) (entries : Entries Document) :
    Entries.value? name (compactEntries entries) = (Entries.value? name entries).map compact := by
  rw [compactEntries_eq]
  exact Entries.value?_map compact name entries

theorem Distinct.compact {document : Document} (distinct : document.Distinct) :
    document.compact.Distinct := by
  induction document using induction with
  | array items ih =>
      rw [Document.compact, compactItems_eq, Distinct, distinctItems_iff, List.forall_mem_map]
      exact fun item listed => ih item listed (distinctItems_iff.mp distinct item listed)
  | object entries ih =>
      rw [Document.compact]
      refine ⟨by simpa only [names_compactEntries] using distinct.1, ?_⟩
      rw [distinctEntries_iff, compactEntries_eq, List.forall_mem_map]
      exact fun entry listed => ih entry listed (distinctEntries_iff.mp distinct.2 entry listed)
  | number n => cases n <;> trivial
  | _ => exact distinct

theorem fit_compact {document : Document} (fit : document.AllNumbers Number.Fits) :
    document.compact.AllNumbers Number.Fits := by
  induction document using induction with
  | number n =>
      cases n with
      | integer z => exact fit
      | binary x => exact Number.fits_ofBinary64 fit
  | array items ih =>
      rw [compact, compactItems_eq, AllNumbers, allNumbersFrom_iff, List.forall_mem_map]
      exact fun item listed => ih item listed (allNumbersFrom_iff.mp fit item listed)
  | object entries ih =>
      rw [compact, compactEntries_eq, AllNumbers, allNumbersIn_iff, List.forall_mem_map]
      exact fun entry listed => ih entry listed (allNumbersIn_iff.mp fit entry listed)
  | _ => trivial

theorem compactEntries_append (entries others : Entries Document) :
    compactEntries (entries ++ others) = compactEntries entries ++ compactEntries others := by
  simp only [compactEntries_eq, List.map_append]

theorem at?_compact (path : List String) (document : Document) :
    document.compact.at? path = (document.at? path).map compact := by
  induction path generalizing document with
  | nil => rfl
  | cons name rest ih =>
      cases document with
      | object entries =>
          rw [compact, at?_object, at?_object, value?_compactEntries]
          cases Entries.value? name entries with
          | none => rfl
          | some next => exact ih next
      | number n => cases n <;> rfl
      | _ => rfl

theorem tidied_compact (document : Document) : document.Tidied document.compact := by
  induction document using induction with
  | null => trivial
  | bool value => exact rfl
  | number n =>
      cases n with
      | integer z => exact ⟨rfl, Number.tidy_integer z⟩
      | binary x => exact Number.tidied_ofBinary64 x
  | text s => exact rfl
  | array items ih =>
      rw [compact, Tidied]
      induction items with
      | nil => trivial
      | cons item rest others =>
          obtain ⟨first, later⟩ := List.forall_mem_cons.mp ih
          exact ⟨first, others later⟩
  | object entries ih =>
      rw [compact, Tidied]
      induction entries with
      | nil => trivial
      | cons head rest others =>
          obtain ⟨first, later⟩ := List.forall_mem_cons.mp ih
          exact ⟨rfl, first, others later⟩

theorem compact_of_tidy {document : Document} (tidy : document.AllNumbers Number.Tidy) :
    document.compact = document := by
  induction document using induction with
  | number n =>
      cases n with
      | integer z => rfl
      | binary x => rw [compact, Number.ofBinary64_eq_iff.mpr tidy]
  | array items ih =>
      have each := allNumbersFrom_iff.mp tidy
      have kept : ∀ item ∈ items, item.compact = item :=
        fun item listed => ih item listed (each item listed)
      rw [compact, compactItems_eq, List.map_congr_left kept, List.map_id']
  | object entries ih =>
      have each := allNumbersIn_iff.mp tidy
      have kept : ∀ entry ∈ entries, (entry.1, entry.2.compact) = entry := by
        intro entry listed
        rw [ih entry listed (each entry listed)]
      rw [compact, compactEntries_eq, List.map_congr_left kept, List.map_id']
  | _ => rfl

theorem tidy_compact (document : Document) : document.compact.AllNumbers Number.Tidy := by
  induction document using induction with
  | number n =>
      cases n with
      | integer z => exact Number.tidy_integer z
      | binary x => exact (Number.tidied_ofBinary64 x).tidy
  | array items ih =>
      rw [compact, compactItems_eq, AllNumbers, allNumbersFrom_iff]
      exact List.forall_mem_map.mpr ih
  | object entries ih =>
      rw [compact, compactEntries_eq, AllNumbers, allNumbersIn_iff]
      exact List.forall_mem_map.mpr ih
  | _ => trivial

theorem compact_compact (document : Document) : document.compact.compact = document.compact :=
  compact_of_tidy (tidy_compact document)

theorem sameItems_compact :
    sameItems (compactItems items) items = true ↔ ∀ item ∈ items, item.compact.same item = true := by
  induction items with
  | nil => simp [compactItems, sameItems]
  | cons item rest ih => simp [compactItems, sameItems, ih]

theorem sameEntries_iff {others : Entries Document} :
    sameEntries entries others = true ↔ ∀ entry ∈ entries, ∃ other,
      Entries.value? entry.1 others = some other ∧ entry.2.same other = true := by
  induction entries with
  | nil => simp [sameEntries]
  | cons head rest ih =>
      rw [sameEntries, Bool.and_eq_true, ih, List.forall_mem_cons]
      cases Entries.value? head.1 others <;> simp

theorem same_compact_object (distinct : (Entries.names entries).Nodup) :
    (object entries).compact.same (.object entries) = true ↔
      ∀ entry ∈ entries, entry.2.compact.same entry.2 = true := by
  rw [compact, same, Bool.and_eq_true, sameEntries_iff, compactEntries_eq, List.forall_mem_map]
  simp only [List.length_map, decide_true, true_and]
  constructor
  · intro all entry listed
    obtain ⟨other, found, same⟩ := all entry listed
    rw [Entries.value?_of_mem distinct listed] at found
    cases found
    exact same
  · intro all entry listed
    exact ⟨entry.2, Entries.value?_of_mem distinct listed, all entry listed⟩

/-- Equality tells a document from its compact form exactly when a number changes its form. -/
theorem same_compact_iff {document : Document} (distinct : document.Distinct)
    (fit : document.AllNumbers Number.Fits) :
    document.compact.same document = true ↔ document.AllNumbers Number.Tidy := by
  induction document using induction with
  | null => simp [compact, same, AllNumbers]
  | bool value => simp [compact, same, AllNumbers]
  | text s => simp [compact, same, AllNumbers]
  | number n =>
      cases n with
      | integer z => simp [compact, same, Number.same, AllNumbers, Number.tidy_integer]
      | binary x =>
          rw [AllNumbers, ← Number.ofBinary64_eq_iff, compact, same, Number.ofBinary64]
          cases x.whole? with
          | some z => simp [Number.same]
          | none =>
              have finite : x.isFinite = true := fit
              simp [Number.same, Binary64.sameValue_self finite]
  | array items ih =>
      rw [compact, same, sameItems_compact, AllNumbers, allNumbersFrom_iff]
      have inner := distinctItems_iff.mp distinct
      have numbers := allNumbersFrom_iff.mp fit
      apply forall₂_congr
      intro item listed
      exact ih item listed (inner item listed) (numbers item listed)
  | object entries ih =>
      rw [same_compact_object distinct.1, AllNumbers, allNumbersIn_iff]
      have inner := distinctEntries_iff.mp distinct.2
      have numbers := allNumbersIn_iff.mp fit
      apply forall₂_congr
      intro entry listed
      exact ih entry listed (inner entry listed) (numbers entry listed)

end DesignTokens.Document
