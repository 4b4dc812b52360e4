import DesignTokens.Proofs.Theme.Reading

/-! The leaves of a schema: the paths at which its documents hold a text or a number. -/

namespace DesignTokens.Theme

open Token

namespace Schema

def ofKind : Kind → Schema
  | .text => .text
  | .number => .number

mutual

def leaves : Schema → List (List String × Kind)
  | .text => [([], .text)]
  | .number => [([], .number)]
  | .record _ fields => leavesIn fields

def leavesIn : List (String × Schema) → List (List String × Kind)
  | [] => []
  | (name, schema) :: rest =>
      (leaves schema).map (fun leaf => (name :: leaf.1, leaf.2)) ++ leavesIn rest

end

mutual

def wellFormed : Schema → Bool
  | .record _ fields => !fields.isEmpty && decide (Entries.names fields).Nodup && wellFormedIn fields
  | _ => true

def wellFormedIn : List (String × Schema) → Bool
  | [] => true
  | (_, schema) :: rest => schema.wellFormed && wellFormedIn rest

end

variable {title name : String} {fields : List (String × Schema)} {schema whole : Schema}
  {path : List String} {kind : Kind}

theorem wellFormedIn_iff :
    wellFormedIn fields = true ↔ ∀ entry ∈ fields, entry.2.wellFormed = true := by
  induction fields with
  | nil => simp [wellFormedIn]
  | cons head rest ih =>
      rcases head with ⟨name, schema⟩
      simp [wellFormedIn, ih]

theorem wellFormed_record (sound : (record title fields).wellFormed = true) :
    fields ≠ [] ∧ (Entries.names fields).Nodup ∧ ∀ entry ∈ fields, entry.2.wellFormed = true := by
  simp only [wellFormed, Bool.and_eq_true, decide_eq_true_eq, Bool.not_eq_true',
    List.isEmpty_eq_false_iff] at sound
  exact ⟨sound.1.1, sound.1.2, wellFormedIn_iff.mp sound.2⟩

theorem mem_leavesIn {leaf : List String × Kind} :
    leaf ∈ leavesIn fields ↔ ∃ name schema below, (name, schema) ∈ fields ∧
      below ∈ schema.leaves ∧ leaf = (name :: below.1, below.2) := by
  induction fields with
  | nil => simp [leavesIn]
  | cons head rest ih =>
      rcases head with ⟨first, top⟩
      simp only [leavesIn, List.mem_append, List.mem_map, ih, List.mem_cons]
      constructor
      · intro held
        rcases held with ⟨below, inside, rfl⟩ | ⟨name, schema, below, later, inside, rfl⟩
        · exact ⟨first, top, below, .inl rfl, inside, rfl⟩
        · exact ⟨name, schema, below, .inr later, inside, rfl⟩
      · intro held
        rcases held with ⟨name, schema, below, here | later, inside, rfl⟩
        · cases here
          exact .inl ⟨below, inside, rfl⟩
        · exact .inr ⟨name, schema, below, later, inside, rfl⟩

theorem mem_leaves_record {leaf : List String × Kind} (field : (name, schema) ∈ fields)
    (inside : leaf ∈ schema.leaves) : (name :: leaf.1, leaf.2) ∈ (record title fields).leaves :=
  mem_leavesIn.mpr ⟨name, schema, leaf, field, inside, rfl⟩

theorem leaves_ne_nil : (schema : Schema) → schema.wellFormed = true → schema.leaves ≠ []
  | .text, _ => by simp [leaves]
  | .number, _ => by simp [leaves]
  | .record _ [], sound => absurd rfl (wellFormed_record sound).1
  | .record _ ((name, first) :: rest), sound => by
      have below := leaves_ne_nil first ((wellFormed_record sound).2.2 _ List.mem_cons_self)
      simp [leaves, leavesIn, below]

/-- The leaves are the paths that the schema has a type of text or number at. -/
theorem mem_leaves_iff (sound : whole.wellFormed = true) :
    (path, kind) ∈ whole.leaves ↔ whole.at? path = some (ofKind kind) := by
  induction path generalizing whole with
  | nil =>
      cases whole with
      | text => cases kind <;> simp [leaves, at?, ofKind]
      | number => cases kind <;> simp [leaves, at?, ofKind]
      | record title fields => cases kind <;> simp [leaves, mem_leavesIn, at?, ofKind]
  | cons name rest ih =>
      cases whole with
      | text => simp [leaves, at?]
      | number => simp [leaves, at?]
      | record title fields =>
          rcases wellFormed_record sound with ⟨-, distinct, below⟩
          rw [at?, Option.bind_eq_some_iff, leaves, mem_leavesIn]
          constructor
          · intro held
            rcases held with ⟨other, schema, leaf, field, inside, same⟩
            injection same with paths kinds
            injection paths with names rests
            subst names rests kinds
            exact ⟨schema, Entries.value?_of_mem distinct field, (ih (below _ field)).mp inside⟩
          · intro held
            rcases held with ⟨schema, found, reached⟩
            have field := Entries.mem_of_value? found
            exact ⟨name, schema, (rest, kind), field, (ih (below _ field)).mpr reached, rfl⟩

mutual

theorem leaves_nodup : (schema : Schema) → schema.wellFormed = true →
    (schema.leaves.map (·.1)).Nodup
  | .text, _ => by simp [leaves]
  | .number, _ => by simp [leaves]
  | .record _ fields, sound => by
      rcases wellFormed_record sound with ⟨-, distinct, below⟩
      exact leavesIn_nodup fields distinct below

theorem leavesIn_nodup : (fields : List (String × Schema)) → (Entries.names fields).Nodup →
    (∀ entry ∈ fields, entry.2.wellFormed = true) → ((leavesIn fields).map (·.1)).Nodup
  | [], _, _ => by simp [leavesIn]
  | (name, schema) :: rest, distinct, below => by
      rcases List.nodup_cons.mp distinct with ⟨fresh, others⟩
      rcases List.forall_mem_cons.mp below with ⟨sound, later⟩
      rw [leavesIn, List.map_append, List.nodup_append]
      refine ⟨?_, leavesIn_nodup rest others later, ?_⟩
      · have inner : ((schema.leaves.map (·.1)).map (name :: ·)).Nodup := by
          apply List.Pairwise.map _ _ (leaves_nodup schema sound)
          intro one other different same
          exact different (List.cons.inj same).2
        simpa [List.map_map, Function.comp_def] using inner
      · intro first here second there same
        subst same
        rcases List.mem_map.mp there with ⟨leaf, inside, rfl⟩
        rcases mem_leavesIn.mp inside with ⟨other, top, bottom, field, -, rfl⟩
        rcases List.mem_map.mp here with ⟨_, mapped, same⟩
        rcases List.mem_map.mp mapped with ⟨_, -, rfl⟩
        injection same with names
        exact fresh (List.mem_map.mpr ⟨_, field, names.symm⟩)

end

theorem Admits.read {document : Document} (admits : whole.Admits document)
    (sound : whole.wellFormed = true)
    (full : ∀ leaf ∈ whole.leaves, (document.at? leaf.1).isSome) :
    ∃ part, whole.read document = .ok part ∧ part.Plain := by
  induction admits with
  | text s => exact ⟨.text s, by simp [Schema.read], .text s⟩
  | number n => exact ⟨.number n.toBinary64, by simp [Schema.read], .number _⟩
  | @record title fields entries distinct declared admitted ih =>
      rcases wellFormed_record sound with ⟨-, -, below⟩
      have reads : ∀ entry ∈ entries, ∃ schema part, Entries.value? entry.1 fields = some schema ∧
          schema.read entry.2 = .ok part ∧ part.Plain := by
        intro entry present
        have found := Entries.value?_of_mem distinct present
        cases known : Entries.value? entry.1 fields with
        | none => exact absurd (declared _ _ found) (Entries.value?_eq_none.mp known)
        | some schema =>
            have field := Entries.mem_of_value? known
            have inner : ∀ leaf ∈ schema.leaves, (entry.2.at? leaf.1).isSome := by
              intro leaf inside
              have there := full _ (mem_leaves_record field inside)
              rwa [Document.at?_object, found] at there
            rcases ih _ _ _ found known (below _ field) inner with ⟨part, read, plain⟩
            exact ⟨schema, part, rfl, read, plain⟩
      rcases readEntries_of_declared reads with ⟨met, first, names, metPlain⟩
      have present : ∀ name ∈ Entries.names fields, name ∈ Entries.names met := by
        intro name listed
        rcases List.mem_map.mp listed with ⟨⟨_, schema⟩, field, rfl⟩
        rcases List.exists_mem_of_ne_nil _ (leaves_ne_nil schema (below _ field)) with ⟨leaf, inside⟩
        have there := full _ (mem_leaves_record field inside)
        rw [Document.at?_object] at there
        rcases Option.bind_eq_some_iff.mp (Option.eq_some_of_isSome there) with ⟨value, found, -⟩
        exact names ▸ Entries.mem_names_of_value? found
      rcases complete_of_met present metPlain with ⟨parts, second, plain⟩
      exact ⟨.record parts [], by simp [Schema.read, first, second], .record plain⟩

end Schema

end DesignTokens.Theme
