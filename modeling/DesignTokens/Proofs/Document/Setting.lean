import DesignTokens.Document.Edit
import DesignTokens.Proofs.Document.Alike

/-!
Setting values at paths. A value that was set is found at its path, paths that lead elsewhere hold
what they held before, and a later value at the same path or above it makes an earlier one void.
-/

namespace DesignTokens.Document

/-- Two paths that lead elsewhere: behind a common start each goes on with a name of its own. -/
inductive Parted : List String → List String → Prop
  | here {name key : String} (different : key ≠ name) (rest more : List String) :
      Parted (name :: rest) (key :: more)
  | further (name : String) {rest more : List String} (later : Parted rest more) :
      Parted (name :: rest) (name :: more)

def placed (value : Document) (rest : List String) (existing : Option Document) : Document :=
  match rest with
  | [] => value
  | _ :: _ => .object (set value rest (entriesOrNone existing))

variable {value later : Document} {name : String} {path other rest : List String}
  {entries : Entries Document}

theorem Parted.ne_nil (parted : Parted path other) : path ≠ [] ∧ other ≠ [] := by
  cases parted <;> simp

theorem parted_of_not_start (before : ¬ path <+: other) (behind : ¬ other <+: path) :
    Parted path other := by
  induction path generalizing other with
  | nil => exact absurd List.nil_prefix before
  | cons name rest ih =>
      cases other with
      | nil => exact absurd List.nil_prefix behind
      | cons key more =>
          rw [List.cons_prefix_cons] at before behind
          by_cases same : key = name
          · subst same
            apply Parted.further
            apply ih
            · exact fun starts => before ⟨rfl, starts⟩
            · exact fun starts => behind ⟨rfl, starts⟩
          · exact .here same rest more

theorem set_cons (value : Document) (name : String) (rest : List String) (entries : Entries Document) :
    set value (name :: rest) entries =
      entries.put name (placed value rest (entries.value? name)) := by
  cases rest <;> rfl

theorem placed_of_ne (proper : rest ≠ []) (value : Document) (existing : Option Document) :
    placed value rest existing = .object (set value rest (entriesOrNone existing)) := by
  cases rest with
  | nil => exact absurd rfl proper
  | cons next rest => rfl

theorem at?_entriesOrNone (proper : path ≠ []) (existing : Option Document) :
    (object (entriesOrNone existing)).at? path = existing.bind (at? path) := by
  cases path with
  | nil => exact absurd rfl proper
  | cons name rest =>
      cases existing with
      | none => rfl
      | some document => cases document <;> rfl

theorem at?_set (proper : path ≠ []) (value : Document) (entries : Entries Document) :
    (object (set value path entries)).at? path = some value := by
  induction path generalizing entries with
  | nil => exact absurd rfl proper
  | cons name rest ih =>
      rw [set_cons, at?_object, Entries.value?_put_self]
      cases rest with
      | nil => rfl
      | cons next rest => exact ih (List.cons_ne_nil next rest) _

theorem at?_set_of_parted (parted : Parted path other) (value : Document)
    (entries : Entries Document) :
    (object (set value path entries)).at? other = (object entries).at? other := by
  induction parted generalizing entries with
  | here different rest more =>
      rw [set_cons, at?_object, at?_object, Entries.value?_put_of_ne different]
  | @further name rest more later ih =>
      rcases later.ne_nil with ⟨proper, proper'⟩
      calc
        (object (set value (name :: rest) entries)).at? (name :: more)
          = (object (set value rest (entriesOrNone (entries.value? name)))).at? more := by
            rw [set_cons, placed_of_ne proper, at?_object, Entries.value?_put_self, Option.bind_some]
        _ = (object (entriesOrNone (entries.value? name))).at? more := ih _
        _ = (object entries).at? (name :: more) := by
            rw [at?_entriesOrNone proper', at?_object]

/-- A later value at the same path or above it leaves nothing of an earlier one. -/
theorem set_set_of_prefix (starts : other <+: path) (proper : other ≠ []) :
    set later other (set value path entries) = set later other entries := by
  induction other generalizing path entries with
  | nil => exact absurd rfl proper
  | cons name rest ih =>
      cases path with
      | nil => exact absurd (List.prefix_nil.mp starts) proper
      | cons first more =>
          rcases List.cons_prefix_cons.mp starts with ⟨rfl, below⟩
          have void (existing : Option Document) :
              placed later rest (some (placed value more existing)) = placed later rest existing := by
            cases rest with
            | nil => rfl
            | cons next rest =>
                have inside : more ≠ [] := by
                  rintro rfl
                  cases List.prefix_nil.mp below
                rw [placed_of_ne inside]
                exact congrArg object (ih below (List.cons_ne_nil next rest))
          rw [set_cons, set_cons, set_cons, Entries.value?_put_self, Entries.put_put, void]

theorem distinct_put (distinct : (object entries).Distinct) (given : value.Distinct) :
    (object (entries.put name value)).Distinct := by
  constructor
  · exact Entries.nodup_names_put value distinct.1
  · rw [distinctEntries_iff]
    intro entry listed
    rcases Entries.of_mem_put listed with ⟨-, same⟩ | old
    · exact same ▸ given
    · exact distinctEntries_iff.mp distinct.2 _ old

theorem distinct_entriesOrNone (distinct : (object entries).Distinct) (name : String) :
    (object (entriesOrNone (entries.value? name))).Distinct := by
  cases found : entries.value? name with
  | none => exact ⟨List.nodup_nil, trivial⟩
  | some document =>
      cases document with
      | object below => exact distinct.field found
      | _ => exact ⟨List.nodup_nil, trivial⟩

theorem distinct_set (given : value.Distinct) (distinct : (object entries).Distinct) :
    (object (set value path entries)).Distinct := by
  induction path generalizing entries with
  | nil => exact distinct
  | cons name rest ih =>
      rw [set_cons]
      apply distinct_put distinct
      cases rest with
      | nil => exact given
      | cons next rest => exact ih (distinct_entriesOrNone distinct name)

theorem alike_put (alike : value.Alike later) (distinct : entries.names.Nodup) (name : String) :
    (object (entries.put name value)).Alike (object (entries.put name later)) := by
  apply Alike.of_rel (Entries.nodup_names_put _ distinct) (Entries.nodup_names_put _ distinct)
  intro key
  rw [Entries.value?_put, Entries.value?_put]
  split
  · exact .some alike
  · exact Alike.rel_refl _

theorem alike_put_put {key : String} (different : key ≠ name) (distinct : entries.names.Nodup) :
    (object ((entries.put name value).put key later)).Alike
      (object ((entries.put key later).put name value)) := by
  apply Alike.of_rel
  · exact Entries.nodup_names_put _ (Entries.nodup_names_put _ distinct)
  · exact Entries.nodup_names_put _ (Entries.nodup_names_put _ distinct)
  · intro sought
    have same : Entries.value? sought ((entries.put name value).put key later) =
        Entries.value? sought ((entries.put key later).put name value) := by
      simp only [Entries.value?_put]
      split
      · rename_i here
        rw [if_neg (here ▸ different)]
      · rfl
    rw [same]
    exact Alike.rel_refl _

theorem alike_set_set (parted : Parted path other) (distinct : (object entries).Distinct) :
    (object (set later other (set value path entries))).Alike
      (object (set value path (set later other entries))) := by
  induction parted generalizing entries with
  | @here name key different rest more =>
      rw [set_cons _ key, set_cons _ name, set_cons _ name, set_cons _ key,
        Entries.value?_put_of_ne different, Entries.value?_put_of_ne different.symm]
      exact alike_put_put different distinct.names_nodup
  | @further name rest more apart ih =>
      rcases apart.ne_nil with ⟨proper, proper'⟩
      simp only [set_cons _ name, placed_of_ne proper, placed_of_ne proper',
        Entries.value?_put_self, Entries.put_put]
      apply alike_put _ distinct.names_nodup
      exact ih (distinct_entriesOrNone distinct name)

end DesignTokens.Document
