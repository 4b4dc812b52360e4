import DesignTokens.Entries

/-! Which pairs are among the entries, and which are found by their names. -/

namespace DesignTokens.Entries

variable {α : Type} {key name : String} {value other : α} {entries : Entries α}

def Precedes (entries : Entries α) (first second : String) : Prop :=
  [first, second].Sublist entries.names

theorem mem_of_value? (found : value? name entries = some value) : (name, value) ∈ entries := by
  induction entries with
  | nil => cases found
  | cons head rest ih =>
      obtain ⟨first, old⟩ := head
      by_cases same : first = name
      · simp only [value?, same, if_true, Option.some.injEq] at found
        simp [same, found]
      · simp only [value?, same, if_false] at found
        exact List.mem_cons_of_mem _ (ih found)

theorem mem_names_of_value? (found : value? name entries = some value) : name ∈ names entries :=
  List.mem_map.mpr ⟨_, mem_of_value? found, rfl⟩

theorem value?_of_mem (distinct : (names entries).Nodup) (present : (name, value) ∈ entries) :
    value? name entries = some value := by
  induction entries with
  | nil => cases present
  | cons head rest ih =>
      obtain ⟨first, old⟩ := head
      obtain ⟨fresh, others⟩ := List.nodup_cons.mp distinct
      rcases List.mem_cons.mp present with here | later
      · cases here
        simp [value?]
      · have other : first ≠ name := by
          intro same
          subst same
          exact fresh (List.mem_map.mpr ⟨_, later, rfl⟩)
        rw [value?, if_neg other]
        exact ih others later

theorem value?_eq_some_iff (distinct : (names entries).Nodup) :
    value? name entries = some value ↔ (name, value) ∈ entries :=
  ⟨mem_of_value?, value?_of_mem distinct⟩

theorem value?_map {β : Type} (f : α → β) (name : String) (entries : Entries α) :
    value? name (entries.map fun entry => (entry.1, f entry.2)) = (value? name entries).map f := by
  induction entries with
  | nil => rfl
  | cons head rest ih =>
      obtain ⟨first, old⟩ := head
      by_cases same : first = name <;> simp [value?, same, ih]

theorem names_filter_nodup (keep : String × α → Bool) (distinct : (names entries).Nodup) :
    (names (entries.filter keep)).Nodup :=
  distinct.sublist (List.filter_sublist.map _)

theorem value?_filter (keep : α → Bool) (distinct : (names entries).Nodup) :
    value? name (entries.filter fun entry => keep entry.2) = (value? name entries).filter keep := by
  apply Option.ext
  intro value
  rw [value?_eq_some_iff (names_filter_nodup _ distinct), Option.filter_eq_some_iff,
    value?_eq_some_iff distinct, List.mem_filter]

/-- Entries with the same names in the same order are equal if each name finds the same value. -/
theorem eq_of_names {others : Entries α} (order : names entries = names others)
    (distinct : (names entries).Nodup) (same : ∀ name, value? name entries = value? name others) :
    entries = others := by
  induction entries generalizing others with
  | nil => exact (List.map_eq_nil_iff.mp order.symm).symm
  | cons head rest ih =>
      rcases head with ⟨first, value⟩
      rcases List.map_eq_cons_iff.mp order.symm with ⟨⟨top, other⟩, more, rfl, named, behind⟩
      have named : top = first := named
      subst named
      rcases List.nodup_cons.mp distinct with ⟨fresh, later⟩
      have here := same top
      simp only [value?, if_true, Option.some.injEq] at here
      have rests : rest = more := by
        apply ih behind.symm later
        intro name
        by_cases first : top = name
        · have absent : top ∉ names more := by rwa [names, behind]
          rw [← first, value?_eq_none.mpr fresh, value?_eq_none.mpr absent]
        · have below := same name
          simpa only [value?, if_neg first] using below
      rw [here, rests]

theorem mem_put_self (key : String) (value : α) (entries : Entries α) :
    (key, value) ∈ put key value entries := by
  induction entries with
  | nil => simp [put]
  | cons head rest ih =>
      obtain ⟨name, old⟩ := head
      by_cases same : name = key <;> simp [put, same, ih]

theorem mem_put_of_ne (different : name ≠ key) (present : (name, other) ∈ entries) :
    (name, other) ∈ put key value entries := by
  induction entries with
  | nil => cases present
  | cons head rest ih =>
      obtain ⟨first, old⟩ := head
      by_cases same : first = key
      · subst same
        rcases List.mem_cons.mp present with here | later
        · injection here with names
          exact absurd names different
        · simp [put, later]
      · rcases List.mem_cons.mp present with here | later
        · simp [put, same, here]
        · simp [put, same, ih later]

theorem of_mem_put (present : (name, other) ∈ put key value entries) :
    (name = key ∧ other = value) ∨ (name, other) ∈ entries := by
  induction entries with
  | nil => exact .inl (by simpa [put] using present)
  | cons head rest ih =>
      obtain ⟨first, old⟩ := head
      by_cases same : first = key
      · subst same
        simp only [put, if_true, List.mem_cons, Prod.mk.injEq] at present
        exact present.imp id (List.mem_cons_of_mem _)
      · simp only [put, same, if_false, List.mem_cons] at present
        rcases present with here | later
        · exact .inr (here ▸ List.mem_cons_self)
        · exact (ih later).imp id (List.mem_cons_of_mem _)

theorem mem_of_mem_remove {entry : String × α} (present : entry ∈ remove key entries) :
    entry ∈ entries := by
  induction entries with
  | nil => cases present
  | cons head rest ih =>
      obtain ⟨first, old⟩ := head
      by_cases same : first = key
      · rw [remove, if_pos same] at present
        exact List.mem_cons_of_mem _ present
      · rw [remove, if_neg same] at present
        rcases List.mem_cons.mp present with here | later
        · exact here ▸ List.mem_cons_self
        · exact List.mem_cons_of_mem _ (ih later)

theorem nodup_names_put (value : α) (distinct : (names entries).Nodup) :
    (names (put key value entries)).Nodup := by
  rw [names_put]
  split
  · exact distinct
  · rename_i fresh
    apply (List.perm_append_singleton key (names entries)).nodup_iff.mpr
    exact List.nodup_cons.mpr ⟨fresh, distinct⟩

theorem names_remove (key : String) (entries : Entries α) :
    names (remove key entries) = (names entries).erase key := by
  induction entries with
  | nil => rfl
  | cons head rest ih =>
      obtain ⟨first, old⟩ := head
      by_cases same : first = key
      · simp [remove, names, same]
      · simpa [remove, names, same] using ih

theorem value?_remove_self (distinct : (names entries).Nodup) :
    value? key (remove key entries) = none := by
  rw [value?_eq_none, names_remove]
  exact distinct.not_mem_erase

theorem value?_remove_of_ne (different : name ≠ key) :
    value? name (remove key entries) = value? name entries := by
  induction entries with
  | nil => rfl
  | cons head rest ih =>
      obtain ⟨first, old⟩ := head
      by_cases same : first = key
      · simp [remove, value?, same, different.symm]
      · rw [remove, if_neg same, value?, value?, ih]

theorem not_mem_of_nodup_append_cons {seen later : List String}
    (distinct : (seen ++ name :: later).Nodup) : name ∉ seen :=
  fun present => (List.nodup_append.mp distinct).2.2 name present name List.mem_cons_self rfl

theorem value?_put (key name : String) (value : α) (entries : Entries α) :
    value? name (put key value entries) = if name = key then some value else value? name entries := by
  by_cases same : name = key
  · rw [if_pos same, same, value?_put_self]
  · rw [if_neg same, value?_put_of_ne same]

theorem put_put (key : String) (first second : α) (entries : Entries α) :
    put key second (put key first entries) = put key second entries := by
  induction entries with
  | nil => simp [put]
  | cons head rest ih =>
      rcases head with ⟨name, old⟩
      by_cases same : name = key <;> simp [put, same, ih]

theorem put_of_value? (found : value? key entries = some value) : put key value entries = entries := by
  induction entries with
  | nil => cases found
  | cons head rest ih =>
      rcases head with ⟨first, old⟩
      by_cases same : first = key
      · simp only [value?, same, if_true, Option.some.injEq] at found
        simp [put, same, found]
      · simp only [value?, same, if_false] at found
        simp [put, same, ih found]

theorem put_of_fresh (value : α) (fresh : key ∉ names entries) :
    put key value entries = entries ++ [(key, value)] := by
  induction entries with
  | nil => rfl
  | cons head rest ih =>
      obtain ⟨first, old⟩ := head
      have other : first ≠ key := fun same => fresh (same ▸ List.mem_cons_self)
      have later : key ∉ names rest := fun present => fresh (List.mem_cons_of_mem _ present)
      simp [put, other, ih later]

theorem value?_append_self (fresh : value? key entries = none) (value : α) :
    value? key (entries ++ [(key, value)]) = some value := by
  rw [← put_of_fresh value (value?_eq_none.mp fresh), value?_put_self]

theorem put_append_self (fresh : value? key entries = none) (old new : α) :
    put key new (entries ++ [(key, old)]) = entries ++ [(key, new)] := by
  have absent := value?_eq_none.mp fresh
  rw [← put_of_fresh old absent, put_put, put_of_fresh new absent]

theorem Precedes.append {first second : String} (precedes : Precedes entries first second)
    (others : Entries α) : Precedes (entries ++ others) first second := by
  rw [Precedes, names, List.map_append]
  exact precedes.trans (List.sublist_append_left ..)

theorem precedes_append {first second : String} {others : Entries α} (there : first ∈ names entries)
    (behind : second ∈ names others) : Precedes (entries ++ others) first second := by
  rw [Precedes, names, List.map_append]
  exact (List.singleton_sublist.mpr there).append (List.singleton_sublist.mpr behind)

theorem value?_append (name : String) (entries others : Entries α) :
    value? name (entries ++ others) = (value? name entries).or (value? name others) := by
  induction entries with
  | nil => rfl
  | cons head rest ih =>
      obtain ⟨first, old⟩ := head
      by_cases same : first = name <;> simp [value?, same, ih]

theorem value?_append_of_some (others : Entries α) (found : value? name entries = some value) :
    value? name (entries ++ others) = some value := by
  rw [value?_append, found, Option.some_or]

theorem value?_flatMap_reverse {β : Type} {entries : β → Entries α} {kind : β → Bool} {held : β → α}
    (each : ∀ item, value? name (entries item).reverse = if kind item then some (held item) else none)
    (items : List β) :
    value? name (items.flatMap entries).reverse = (items.reverse.find? kind).map held := by
  induction items with
  | nil => rfl
  | cons item rest ih =>
      rw [List.flatMap_cons, List.reverse_append, value?_append, ih, each, List.reverse_cons,
        List.find?_append, Option.map_or]
      cases chosen : kind item <;> simp [chosen]

end DesignTokens.Entries
