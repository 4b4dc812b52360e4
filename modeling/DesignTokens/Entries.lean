/-! Named values in the order in which their names first came. -/

namespace DesignTokens

abbrev Entries (α : Type) := List (String × α)

namespace Entries

variable {α : Type}

def value? (key : String) : Entries α → Option α
  | [] => none
  | (name, value) :: rest => if name = key then some value else value? key rest

/-- A known name keeps its place and takes the new value; a new name goes to the end. -/
def put (key : String) (value : α) : Entries α → Entries α
  | [] => [(key, value)]
  | (name, old) :: rest =>
      if name = key then (name, value) :: rest else (name, old) :: put key value rest

def remove (key : String) : Entries α → Entries α
  | [] => []
  | (name, value) :: rest => if name = key then rest else (name, value) :: remove key rest

def names (entries : Entries α) : List String := entries.map (·.1)

/-- Putting the pairs one by one: a repeated name keeps its first place and its last value. -/
def collect (pairs : List (String × α)) : Entries α :=
  pairs.foldl (fun entries (key, value) => put key value entries) []

theorem value?_put_self (key : String) (value : α) (entries : Entries α) :
    value? key (put key value entries) = some value := by
  induction entries with
  | nil => simp [put, value?]
  | cons head rest ih =>
      obtain ⟨name, old⟩ := head
      by_cases same : name = key <;> simp [put, value?, same, ih]

theorem value?_put_of_ne {key other : String} (different : other ≠ key) (value : α)
    (entries : Entries α) : value? other (put key value entries) = value? other entries := by
  induction entries with
  | nil => simp [put, value?, different.symm]
  | cons head rest ih =>
      obtain ⟨name, old⟩ := head
      by_cases same : name = key
      · subst same
        simp [put, value?, different.symm]
      · by_cases here : name = other
        · subst here
          simp [put, value?, different]
        · simp [put, value?, same, here, ih]

theorem value?_eq_none {key : String} {entries : Entries α} :
    value? key entries = none ↔ key ∉ names entries := by
  induction entries with
  | nil => simp [value?, names]
  | cons head rest ih =>
      obtain ⟨name, old⟩ := head
      by_cases same : name = key
      · simp [value?, names, same]
      · have flipped : ¬ key = name := fun h => same h.symm
        simpa [value?, names, same, flipped] using ih

theorem names_put (key : String) (value : α) (entries : Entries α) :
    names (put key value entries) =
      if key ∈ names entries then names entries else names entries ++ [key] := by
  induction entries with
  | nil => simp [put, names]
  | cons head rest ih =>
      obtain ⟨name, old⟩ := head
      by_cases same : name = key
      · simp [put, names, same]
      · have flipped : ¬ key = name := fun h => same h.symm
        simp only [names] at ih
        by_cases known : key ∈ List.map (·.1) rest <;> simp_all [put, names]

end Entries

end DesignTokens
