import DesignTokens.Proofs.Document.Induction
import DesignTokens.Proofs.Theme.Checked
import Mathlib.Data.List.Lex

/-!
Which alias the check reports. Positions count the parts of arrays and objects on the way to a value, so
document order is the lexicographic order of positions, and the check finds the first of them that holds an
alias.
-/

namespace DesignTokens

namespace Document

open Token

def numbered (start : Nat) (items : List Document) : Entries Document :=
  (items.zipIdx start).map fun (item, index) => (toString index, item)

def parts : Document → Entries Document
  | .array items => numbered 0 items
  | .object entries => entries
  | _ => []

/-- What stands at a position, and the numbers and names that lead there. -/
def spot? : List Nat → Document → Option (List String × Document)
  | [], document => some ([], document)
  | index :: rest, document => do
      let (label, part) ← document.parts[index]?
      let (labels, found) ← spot? rest part
      some (label :: labels, found)

def AliasAt (document : Document) (position : List Nat) (place : List String) (s : String) : Prop :=
  document.spot? position = some (place, .text s) ∧ isAlias s = true

/-- No other position with an alias comes first in the order of the document. -/
structure FirstAt (document : Document) (position : List Nat) (place : List String) (s : String) :
    Prop where
  there : document.AliasAt position place s
  first : ∀ other place' s', document.AliasAt other place' s' → ¬ List.Lex (· < ·) other position

def Finds (document : Document) : Option (List String × String) → Prop
  | none => ∀ position place s, ¬ document.AliasAt position place s
  | some (place, s) => ∃ position, document.FirstAt position place s

variable {document value : Document} {entries : Entries Document} {items : List Document}
  {name s : String} {place : List String} {index : Nat} {position : List Nat}

theorem not_aliasAt_nil : ¬ (object entries).AliasAt [] place s := by
  rintro ⟨found, -⟩
  cases found

theorem aliasAt_zero : (object ((name, value) :: entries)).AliasAt (0 :: position) place s ↔
    ∃ labels, place = name :: labels ∧ value.AliasAt position labels s := by
  simp only [AliasAt, spot?, parts, List.getElem?_cons_zero, Option.bind_eq_bind, Option.bind_some,
    Option.bind_eq_some_iff, Option.some.injEq, Prod.mk.injEq, Prod.exists]
  constructor
  · rintro ⟨⟨labels, found, below, rfl, rfl⟩, named⟩
    exact ⟨labels, rfl, below, named⟩
  · rintro ⟨labels, rfl, below, named⟩
    exact ⟨⟨labels, _, below, rfl, rfl⟩, named⟩

theorem aliasAt_succ {head : String × Document} :
    (object (head :: entries)).AliasAt ((index + 1) :: position) place s ↔
      (object entries).AliasAt (index :: position) place s := Iff.rfl

theorem AliasAt.cases (held : (object ((name, value) :: entries)).AliasAt position place s) :
    (∃ below labels, position = 0 :: below ∧ place = name :: labels ∧ value.AliasAt below labels s) ∨
      ∃ index below, position = (index + 1) :: below ∧
        (object entries).AliasAt (index :: below) place s := by
  match position with
  | [] => exact absurd held not_aliasAt_nil
  | 0 :: below =>
      obtain ⟨labels, rfl, inside⟩ := aliasAt_zero.mp held
      exact .inl ⟨below, labels, rfl, rfl, inside⟩
  | (index + 1) :: below => exact .inr ⟨index, below, rfl, aliasAt_succ.mp held⟩

theorem finds_nil : (object []).Finds none := by
  rintro position place s ⟨found, -⟩
  cases position <;> cases found

theorem Finds.head (found : value.Finds (some (place, s))) :
    (object ((name, value) :: entries)).Finds (some (name :: place, s)) := by
  obtain ⟨position, there, first⟩ := found
  refine ⟨0 :: position, aliasAt_zero.mpr ⟨place, rfl, there⟩, ?_⟩
  intro other place' s' held
  rcases held.cases with ⟨below, labels, rfl, rfl, inside⟩ | ⟨index, below, rfl, -⟩
  · rw [List.lex_cons_iff]
    exact first below labels s' inside
  · intro before
    cases before with
    | rel less => exact Nat.not_lt_zero _ less

/-- Behind an entry without any, the search goes on as in the other entries alone. -/
theorem Finds.tail {found : Option (List String × String)} (clear : value.Finds none)
    (later : (object entries).Finds found) : (object ((name, value) :: entries)).Finds found := by
  cases found with
  | none =>
      intro position place s held
      rcases held.cases with ⟨below, labels, rfl, rfl, inside⟩ | ⟨index, below, rfl, others⟩
      · exact clear below labels s inside
      · exact later (index :: below) place s others
  | some both =>
      obtain ⟨place, s⟩ := both
      obtain ⟨position, there, first⟩ := later
      cases position with
      | nil => exact absurd there not_aliasAt_nil
      | cons index position =>
          refine ⟨(index + 1) :: position, aliasAt_succ.mpr there, ?_⟩
          intro other place' s' held
          rcases held.cases with ⟨below, labels, rfl, rfl, inside⟩ | ⟨index', below, rfl, others⟩
          · exact absurd inside (clear below labels s')
          · -- Both positions lie among the others, one number further on.
            intro before
            apply first (index' :: below) place' s' others
            cases before with
            | cons before => exact .cons before
            | rel less => exact .rel (Nat.lt_of_succ_lt_succ less)

theorem finds_firstAliasIn? (each : ∀ entry ∈ entries, entry.2.Finds (firstAlias? entry.2)) :
    (object entries).Finds (firstAliasIn? entries) := by
  induction entries with
  | nil => exact finds_nil
  | cons head rest ih =>
      obtain ⟨name, value⟩ := head
      obtain ⟨here, later⟩ := List.forall_mem_cons.mp each
      rw [firstAliasIn?]
      cases search : firstAlias? value with
      | none => exact .tail (search ▸ here) (ih later)
      | some both => exact .head (search ▸ here)

theorem firstAliasFrom?_eq_numbered (start : Nat) (items : List Document) :
    firstAliasFrom? start items = firstAliasIn? (numbered start items) := by
  induction items generalizing start with
  | nil => rfl
  | cons item rest ih =>
      rw [firstAliasFrom?, numbered, List.zipIdx_cons, List.map_cons, firstAliasIn?, ih]
      rfl

theorem aliasAt_array : (array items).AliasAt position place s ↔
    (object (numbered 0 items)).AliasAt position place s := by
  cases position with
  | nil => simp [AliasAt, spot?]
  | cons index rest => exact Iff.rfl

theorem Finds.array {found : Option (List String × String)}
    (finds : (object (numbered 0 items)).Finds found) : (Document.array items).Finds found := by
  cases found with
  | none => exact fun position place s held => finds position place s (aliasAt_array.mp held)
  | some both =>
      obtain ⟨position, there, first⟩ := finds
      refine ⟨position, aliasAt_array.mpr there, ?_⟩
      exact fun other place s held => first other place s (aliasAt_array.mp held)

theorem mem_of_mem_numbered {entry : String × Document} {start : Nat}
    (listed : entry ∈ numbered start items) : entry.2 ∈ items := by
  obtain ⟨⟨item, index⟩, inside, rfl⟩ := List.mem_map.mp listed
  exact List.fst_mem_of_mem_zipIdx inside

theorem finds_text (s : String) : (text s).Finds (firstAlias? (.text s)) := by
  have only : ∀ position place t, (text s).AliasAt position place t → position = [] ∧ s = t := by
    rintro position place t ⟨found, -⟩
    cases position <;> cases found
    exact ⟨rfl, rfl⟩
  rw [firstAlias?]
  cases named : isAlias s with
  | true =>
      refine ⟨[], ⟨rfl, named⟩, ?_⟩
      intro other place' s' held
      rw [(only other place' s' held).1]
      rintro ⟨⟩
  | false =>
      rintro position place t held
      obtain ⟨-, rfl⟩ := only position place t held
      exact absurd held.2 (by rw [named]; decide)

theorem finds_firstAlias? (document : Document) : document.Finds (firstAlias? document) := by
  induction document using induction with
  | text s => exact finds_text s
  | array items ih =>
      apply Finds.array
      rw [firstAlias?, firstAliasFrom?_eq_numbered]
      exact finds_firstAliasIn? fun entry listed => ih entry.2 (mem_of_mem_numbered listed)
  | object entries ih => exact finds_firstAliasIn? ih
  | _ =>
      rintro position place s ⟨found, -⟩
      cases position <;> cases found

theorem FirstAt.unique {other : List Nat} {place' : List String} {s' : String}
    (one : document.FirstAt position place s) (another : document.FirstAt other place' s') :
    place = place' ∧ s = s' := by
  have lower := one.first other place' s' another.there
  have upper := another.first position place s one.there
  obtain rfl := Std.Trichotomous.trichotomous position other upper lower
  have same := one.there.1.symm.trans another.there.1
  cases same
  exact ⟨rfl, rfl⟩

theorem firstAlias?_eq_none_iff_forall :
    firstAlias? document = none ↔ ∀ position place s, ¬ document.AliasAt position place s := by
  have finds := document.finds_firstAlias?
  constructor
  · intro search
    rwa [search] at finds
  · intro clear
    cases search : firstAlias? document with
    | none => rfl
    | some both =>
        rw [search] at finds
        obtain ⟨position, first⟩ := finds
        exact absurd first.there (clear position both.1 both.2)

theorem firstAlias?_eq_some_iff :
    firstAlias? document = some (place, s) ↔ ∃ position, document.FirstAt position place s := by
  have finds := document.finds_firstAlias?
  constructor
  · intro search
    rwa [search] at finds
  · rintro ⟨position, first⟩
    cases search : firstAlias? document with
    | none =>
        rw [search] at finds
        exact absurd first.there (finds position place s)
    | some both =>
        rw [search] at finds
        obtain ⟨other, first'⟩ := finds
        obtain ⟨rfl, rfl⟩ := first.unique first'
        rfl

end Document

namespace Theme

open Token

variable {document : Document} {e : ThemeError}

theorem checkResolved_eq_ok_iff_none : checkResolved document = .ok () ↔ firstAlias? document = none := by
  rw [checkResolved_eq]
  cases firstAlias? document <;> simp [searched]

theorem checkResolved_eq_error_iff : checkResolved document = .error e ↔
    ∃ place s, firstAlias? document = some (place, s) ∧ e = .unresolvedAlias (Text.join '.' place) s := by
  rw [checkResolved_eq]
  cases firstAlias? document with
  | none => simp [searched]
  | some both => simp [searched, Prod.ext_iff, eq_comm]

/--
The check passes exactly the documents without an alias among their texts. Otherwise it reports the alias
that comes first in the document, with the names and numbers that lead to it.
-/
theorem checkResolved_spec (document : Document) :
    (checkResolved document = .ok () ↔ ∀ position place s,
      document.spot? position = some (place, .text s) → isAlias s = false) ∧
    ∀ e, checkResolved document = .error e ↔ ∃ position place s, document.FirstAt position place s ∧
      e = .unresolvedAlias (Text.join '.' place) s := by
  constructor
  · rw [checkResolved_eq_ok_iff_none, Document.firstAlias?_eq_none_iff_forall]
    simp only [Document.AliasAt, not_and, Bool.not_eq_true]
  · intro e
    rw [checkResolved_eq_error_iff]
    simp only [Document.firstAlias?_eq_some_iff]
    constructor
    · rintro ⟨place, s, ⟨position, first⟩, reported⟩
      exact ⟨position, place, s, first, reported⟩
    · rintro ⟨position, place, s, first, reported⟩
      exact ⟨place, s, ⟨position, first⟩, reported⟩

def tangle : Document :=
  .object [("\x7bKey\x7d", .array [.text "plain", .text "\x7b", .object [("depth", .null),
    ("ink", .text "\x7bA.B\x7d")], .text "\x7bC\x7d"]), ("last", .text "\x7bD\x7d")]

/-- Nothing stays in the reported place of the texts that were passed on the way. -/
theorem checkResolved_of_tangle :
    checkResolved tangle = .error (.unresolvedAlias "\x7bKey\x7d.2.ink" "\x7bA.B\x7d") ∧
      ∃ position place, tangle.FirstAt position place "\x7bA.B\x7d" ∧
        Text.join '.' place = "\x7bKey\x7d.2.ink" := by
  have reported : checkResolved tangle =
      .error (.unresolvedAlias "\x7bKey\x7d.2.ink" "\x7bA.B\x7d") := by cbv
  obtain ⟨position, place, s, first, same⟩ := ((checkResolved_spec tangle).2 _).mp reported
  obtain ⟨named, rfl⟩ := ThemeError.unresolvedAlias.inj same
  exact ⟨reported, position, place, first, named.symm⟩

end Theme

end DesignTokens
