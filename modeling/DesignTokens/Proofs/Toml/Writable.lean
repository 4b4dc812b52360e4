import DesignTokens.Proofs.Document.Compaction
import DesignTokens.Toml.Writer

/-!
Documents that can be written: their numbers are signed, their names are distinct, and no value is
`null`.
-/

namespace DesignTokens

/-- Documents with a written form in which objects and arrays nest no deeper than the bound. -/
inductive Document.Writable : Nat → Document → Prop
  | text {depth : Nat} (s : String) : Writable depth (.text s)
  | bool {depth : Nat} (value : Bool) : Writable depth (.bool value)
  | number {depth : Nat} {n : Number} (signed : n.Signed) : Writable depth (.number n)
  | array {depth : Nat} {items : List Document} (each : ∀ item ∈ items, Writable depth item) :
      Writable (depth + 1) (.array items)
  | object {depth : Nat} {entries : Entries Document} (distinct : entries.names.Nodup)
      (each : ∀ entry ∈ entries, Writable depth entry.2) : Writable (depth + 1) (.object entries)

namespace Document

mutual

def depth : Document → Nat
  | .array items => depthFrom items + 1
  | .object entries => depthIn entries + 1
  | _ => 0

def depthFrom : List Document → Nat
  | [] => 0
  | item :: rest => max item.depth (depthFrom rest)

def depthIn : List (String × Document) → Nat
  | [] => 0
  | (_, value) :: rest => max value.depth (depthIn rest)

end

variable {document : Document} {items : List Document} {entries : Entries Document} {depth bound : Nat}

theorem depthFrom_le_iff : depthFrom items ≤ bound ↔ ∀ item ∈ items, item.depth ≤ bound := by
  induction items with
  | nil => simp [depthFrom]
  | cons item rest ih => simp [depthFrom, ih]

theorem depthIn_le_iff : depthIn entries ≤ bound ↔ ∀ entry ∈ entries, entry.2.depth ≤ bound := by
  induction entries with
  | nil => simp [depthIn]
  | cons head rest ih => simp [depthIn, ih]

theorem depth_compact (document : Document) : document.compact.depth = document.depth := by
  induction document using induction with
  | number n => cases n <;> rfl
  | array items ih =>
      rw [compact, depth, depth]
      induction items with
      | nil => rfl
      | cons item rest others =>
          obtain ⟨first, later⟩ := List.forall_mem_cons.mp ih
          have behind := others later
          simp only [compactItems, depthFrom, first] at behind ⊢
          omega
  | object entries ih =>
      rw [compact, depth, depth]
      induction entries with
      | nil => rfl
      | cons entry rest others =>
          obtain ⟨first, later⟩ := List.forall_mem_cons.mp ih
          have behind := others later
          simp only [compactEntries, depthIn, first] at behind ⊢
          omega
  | _ => rfl

theorem Writable.mono (writable : document.Writable depth) (le : depth ≤ bound) :
    document.Writable bound := by
  induction writable generalizing bound with
  | text s => exact .text s
  | bool value => exact .bool value
  | number signed => exact .number signed
  | array each ih =>
      obtain ⟨less, rfl⟩ := Nat.exists_eq_add_of_lt le
      exact .array fun item listed => ih item listed (by omega)
  | object distinct each ih =>
      obtain ⟨less, rfl⟩ := Nat.exists_eq_add_of_lt le
      exact .object distinct fun entry listed => ih entry listed (by omega)

theorem Writable.distinct (writable : document.Writable depth) : document.Distinct := by
  induction writable with
  | array each ih => exact distinctItems_iff.mpr ih
  | object distinct each ih => exact ⟨distinct, distinctEntries_iff.mpr ih⟩
  | _ => trivial

end Document

namespace Toml

variable {items : List Document} {entries : Entries Document} {document : Document} {depth : Nat}

theorem faultIn?_eq_none_iff : faultIn? items = none ↔ ∀ item ∈ items, fault? item = none := by
  induction items with
  | nil => simp [faultIn?]
  | cons item rest ih => simp [faultIn?, ih]

theorem faultInEntries?_eq_none_iff :
    faultInEntries? entries = none ↔ ∀ entry ∈ entries, fault? entry.2 = none := by
  induction entries with
  | nil => simp [faultInEntries?]
  | cons entry rest ih => simp [faultInEntries?, ih]

theorem fault?_of_writable (writable : document.Writable depth) : fault? document = none := by
  induction writable with
  | text s => rfl
  | bool value => rfl
  | @number _ n signed =>
      cases n with
      | binary x => rfl
      | integer z => exact if_neg (by simpa using signed.2)
  | array each ih => exact faultIn?_eq_none_iff.mpr ih
  | object distinct each ih => exact faultInEntries?_eq_none_iff.mpr ih

theorem signed_of_fault? {n : Number} (fits : n.Fits) (sound : fault? (.number n) = none) :
    n.Signed := by
  cases n with
  | binary x => exact fits
  | integer z =>
      have small : ¬ (Number.signedLimit : Int) ≤ z := by
        intro large
        rw [fault?, if_pos large] at sound
        cases sound
      exact ⟨fits.1, by omega⟩

theorem fault?_compact (fit : document.AllNumbers Number.Fits) (sound : fault? document = none) :
    fault? document.compact = none := by
  induction document using Document.induction with
  | number n =>
      cases n with
      | integer z => exact sound
      | binary x =>
          have signed := Number.signed_ofBinary64 fit
          exact fault?_of_writable (.number signed : Document.Writable 0 _)
  | array items ih =>
      have numbers := Document.allNumbersFrom_iff.mp fit
      have faults := faultIn?_eq_none_iff.mp sound
      rw [Document.compact, Document.compactItems_eq, fault?, faultIn?_eq_none_iff, List.forall_mem_map]
      exact fun item listed => ih item listed (numbers item listed) (faults item listed)
  | object entries ih =>
      have numbers := Document.allNumbersIn_iff.mp fit
      have faults := faultInEntries?_eq_none_iff.mp sound
      rw [Document.compact, Document.compactEntries_eq, fault?, faultInEntries?_eq_none_iff,
        List.forall_mem_map]
      exact fun entry listed => ih entry listed (numbers entry listed) (faults entry listed)
  | _ => exact sound

theorem writable_of_fault? (distinct : document.Distinct) (fit : document.AllNumbers Number.Fits)
    (sound : fault? document = none) (shallow : document.depth ≤ depth) :
    document.Writable depth := by
  induction document using Document.induction generalizing depth with
  | null => cases sound
  | bool value => exact .bool value
  | number n => exact .number (signed_of_fault? fit sound)
  | text s => exact .text s
  | array items ih =>
      rw [Document.depth] at shallow
      obtain ⟨less, rfl⟩ : ∃ less, depth = less + 1 := ⟨depth - 1, by omega⟩
      have inner := Document.depthFrom_le_iff.mp (Nat.le_of_succ_le_succ shallow)
      refine .array fun item listed => ih item listed ?_ ?_ ?_ (inner item listed)
      · exact Document.distinctItems_iff.mp distinct item listed
      · exact Document.allNumbersFrom_iff.mp fit item listed
      · exact faultIn?_eq_none_iff.mp sound item listed
  | object entries ih =>
      rw [Document.depth] at shallow
      obtain ⟨less, rfl⟩ : ∃ less, depth = less + 1 := ⟨depth - 1, by omega⟩
      have inner := Document.depthIn_le_iff.mp (Nat.le_of_succ_le_succ shallow)
      refine .object distinct.1 fun entry listed => ih entry listed ?_ ?_ ?_ (inner entry listed)
      · exact Document.distinctEntries_iff.mp distinct.2 entry listed
      · exact Document.allNumbersIn_iff.mp fit entry listed
      · exact faultInEntries?_eq_none_iff.mp sound entry listed

theorem render_of_writable (writable : (Document.object entries).Writable depth) :
    render entries = .ok (Sheet.ofEntries entries).text := by
  rw [render, fault?_of_writable writable]

end Toml

end DesignTokens
