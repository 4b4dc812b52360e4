import DesignTokens.Proofs.Document.Setting
import DesignTokens.Proofs.Theme.Assembled
import DesignTokens.Proofs.Theme.Deriving
import DesignTokens.Proofs.Theme.Rereading
import DesignTokens.Theme.Catalogue

/-!
Catalogues after any run of calls. What a catalogue holds follows from what was stored and removed:
under each name the theme last stored, and the names in the order in which they entered.
-/

namespace DesignTokens.Theme

inductive Call where
  | register (theme : Theme)
  | derive (source name : String) (overrides : Overrides)
  | remove (name : String)

/-- The overrides of a call name each of their entries once, as maps do. -/
def Call.Distinct : Call → Prop
  | .derive _ _ overrides => overrides.root.names.Nodup
  | _ => True

inductive Event where
  | stored (name : String) (theme : Theme)
  | removed (name : String)

/-- The theme last stored under a name since its last removal. Events stand newest first. -/
def lastStored? (name : String) : List Event → Option Theme
  | [] => none
  | .stored other theme :: earlier =>
      if other = name then some theme else lastStored? name earlier
  | .removed other :: earlier => if other = name then none else lastStored? name earlier

/-- How many events came before a name was first stored since its last removal. -/
def entered? (name : String) : List Event → Option Nat
  | [] => none
  | .stored other _ :: earlier =>
      if other = name then (entered? name earlier).or (some earlier.length)
      else entered? name earlier
  | .removed other :: earlier => if other = name then none else entered? name earlier

namespace Catalogue

def perform (catalogue : Catalogue) : Call → Catalogue
  | .register theme => catalogue.register theme
  | .derive source name overrides => (catalogue.derive source name overrides).2
  | .remove name => (catalogue.remove name).2

def event? (catalogue : Catalogue) : Call → Option Event
  | .register theme => some (.stored theme.name theme)
  | .derive source name overrides =>
      match (catalogue.derive source name overrides).1 with
      | .ok theme => some (.stored name theme)
      | .error _ => none
  | .remove name => some (.removed name)

end Catalogue

structure Chronicle where
  catalogue : Catalogue
  events : List Event

namespace Chronicle

def perform (chronicle : Chronicle) (call : Call) : Chronicle :=
  ⟨chronicle.catalogue.perform call, (chronicle.catalogue.event? call).toList ++ chronicle.events⟩

def run (calls : List Call) : Chronicle := calls.foldl perform ⟨.empty, []⟩

structure Faithful (chronicle : Chronicle) : Prop where
  own : ∀ entry ∈ chronicle.catalogue.themes, entry.2.name = entry.1
  distinct : chronicle.catalogue.names.Nodup
  held : ∀ name, chronicle.catalogue.themes.value? name = lastStored? name chronicle.events
  entered : ∀ name, name ∈ chronicle.catalogue.names ↔ (entered? name chronicle.events).isSome
  order : chronicle.catalogue.names.Pairwise fun first second =>
    ∀ place later, entered? first chronicle.events = some place →
      entered? second chronicle.events = some later → place < later

end Chronicle

section

variable {name other : String} {theme : Theme} {place : Nat} {events : List Event}

theorem entered?_lt (here : entered? name events = some place) : place < events.length := by
  induction events with
  | nil => cases here
  | cons event earlier ih =>
      rw [List.length_cons]
      cases event with
      | stored other theme =>
          by_cases same : other = name
          · rw [entered?, if_pos same, Option.or_eq_some_iff] at here
            rcases here with before | ⟨-, now⟩
            · exact Nat.lt_succ_of_lt (ih before)
            · exact Option.some.inj now ▸ Nat.lt_succ_self _
          · rw [entered?, if_neg same] at here
            exact Nat.lt_succ_of_lt (ih here)
      | removed other =>
          by_cases same : other = name
          · simp [entered?, same] at here
          · rw [entered?, if_neg same] at here
            exact Nat.lt_succ_of_lt (ih here)

theorem entered?_stored_again (known : (entered? other events).isSome) :
    entered? name (.stored other theme :: events) = entered? name events := by
  rw [entered?]
  split
  · rename_i same
    subst same
    exact Option.or_of_isSome known
  · rfl

theorem entered?_stored_of_ne (different : other ≠ name) :
    entered? name (.stored other theme :: events) = entered? name events := by
  rw [entered?, if_neg different]

theorem entered?_stored_first (fresh : entered? name events = none) :
    entered? name (.stored name theme :: events) = some events.length := by
  rw [entered?, if_pos rfl, fresh, Option.none_or]

theorem entered?_stored_isSome : (entered? name (.stored name theme :: events)).isSome := by
  rw [entered?, if_pos rfl, Option.isSome_or, Option.isSome_some, Bool.or_true]

theorem entered?_lt_of_fresh {later : Nat} (fresh : entered? name events = none)
    (different : name ≠ other) (here : entered? other (.stored name theme :: events) = some place)
    (behind : entered? name (.stored name theme :: events) = some later) : place < later := by
  rw [entered?_stored_of_ne different] at here
  rw [entered?_stored_first fresh, Option.some.injEq] at behind
  exact behind ▸ entered?_lt here

theorem entered?_removed_of_ne (different : other ≠ name) :
    entered? name (.removed other :: events) = entered? name events := by
  rw [entered?, if_neg different]

end

def Overrides.under (overrides : Overrides) (name : String) : Document :=
  .object (overrides.root.put "name" (.text name))

def blend (parent : Theme) (name : String) (overrides : Overrides) : Document :=
  parent.toDocument.merge (overrides.under name)

theorem toDocument_set_name (name : String) (overrides : Overrides) :
    (overrides.set "name" (.text name)).toDocument = overrides.under name := by
  have cut : Text.split '.' "name" = ["name"] := by decide
  rw [Overrides.set, Overrides.toDocument, cut, Document.set, Overrides.under]

theorem exists_renamed {document : Document} {parent : Theme} {name : String}
    (read : ofDocument document = .ok parent) (fit : document.AllNumbers Number.Fits)
    (plain : Token.isAlias name = false) :
    ∃ theme, ofDocument (parent.toDocument.merge (.object [("name", .text name)])) = .ok theme := by
  obtain ⟨entries, form⟩ := toDocument_eq_object read
  obtain ⟨resolved, again⟩ := ofDocument_eq_ok_iff.mp (ofDocument_toDocument read fit)
  rw [form] at resolved again ⊢
  rw [Document.merge_text_entry]
  apply ofDocument_of_fits
  · rw [Document.resolved_object] at resolved ⊢
    intro entry listed
    rcases Entries.of_mem_put listed with ⟨-, same⟩ | old
    · rw [same]
      exact fun held inside => List.mem_singleton.mp inside ▸ plain
    · exact resolved entry old
  · exact (Schema.read_isOk_iff.mp ⟨_, again⟩).put rfl (.text name)

namespace Catalogue

variable {catalogue : Catalogue} {source name : String} {overrides : Overrides}
  {parent theme : Theme} {e : ThemeError}

theorem names_remove (catalogue : Catalogue) (name : String) :
    (catalogue.remove name).2.names = catalogue.names.erase name :=
  Entries.names_remove name catalogue.themes

theorem names_register (catalogue : Catalogue) (theme : Theme) :
    (catalogue.register theme).names =
      if theme.name ∈ catalogue.names then catalogue.names else catalogue.names ++ [theme.name] :=
  Entries.names_put theme.name theme catalogue.themes

/-- A derivation reads the blend of its source. Any alias in it is noticed before its shape. -/
theorem derived_eq (held : catalogue.get source = .ok parent) :
    catalogue.derived source name overrides = ofDocument (parent.blend name overrides) := by
  have blended : parent.derive (overrides.set "name" (.text name)) =
      Draft.ofDocument (parent.blend name overrides) := by
    rw [Theme.derive, toDocument_set_name, blend]
  simp only [derived, held, blended]
  cases checked : checkResolved (parent.blend name overrides) with
  | error e => simp [Draft.ofDocument, ofDocument, checked]
  | ok _ => simp [Draft.ofDocument, checked, Draft.toTheme]

theorem get_eq_error (absent : source ∉ catalogue.names) :
    catalogue.get source = .error (.themeNotFound source) := by
  rw [get, Entries.value?_eq_none.mpr absent]

theorem derived_of_absent (absent : source ∉ catalogue.names) :
    catalogue.derived source name overrides = .error (.themeNotFound source) := by
  simp only [derived, get_eq_error absent]

theorem get_eq_ok_iff : catalogue.get source = .ok parent ↔
    catalogue.themes.value? source = some parent := by
  rw [get]
  cases catalogue.themes.value? source <;> simp

theorem derived_eq_ok_iff : catalogue.derived source name overrides = .ok theme ↔
    ∃ parent, catalogue.get source = .ok parent ∧
      ofDocument (parent.blend name overrides) = .ok theme := by
  constructor
  · intro made
    cases held : catalogue.get source with
    | error e => simp [derived, held] at made
    | ok parent => exact ⟨parent, rfl, derived_eq held ▸ made⟩
  · rintro ⟨parent, held, made⟩
    rw [derived_eq held, made]

/-- The given name wins over any that the overrides hold. -/
theorem name_of_derived (distinct : overrides.root.names.Nodup)
    (made : catalogue.derived source name overrides = .ok theme) : theme.name = name := by
  obtain ⟨parent, -, read⟩ := derived_eq_ok_iff.mp made
  apply name_of_read (ofDocument_eq_ok_iff.mp read).2
  rw [Document.at?_singleton]
  apply Document.field?_merge_text (Entries.nodup_names_put _ distinct)
  exact Entries.value?_put_self "name" (.text name) overrides.root

theorem derive_of_ok (made : catalogue.derived source name overrides = .ok theme) :
    catalogue.derive source name overrides = (.ok theme, catalogue.register theme) := by
  rw [derive, made]

theorem derive_of_error (failed : catalogue.derived source name overrides = .error e) :
    catalogue.derive source name overrides = (.error e, catalogue) := by
  rw [derive, failed]

/--
What keeps a theme from being derived: its source is unknown, an alias is left in the blend, or the blend
without any alias is not read. An alias comes from the overrides or the given name if the source has none.
-/
inductive Hindered (catalogue : Catalogue) (source name : String) (overrides : Overrides) :
    ThemeError → Prop
  | missing (absent : source ∉ catalogue.names) :
      Hindered catalogue source name overrides (.themeNotFound source)
  | aliased {parent : Theme} {place : List String} {s : String}
      (held : catalogue.get source = .ok parent)
      (there : (place, s) ∈ (parent.blend name overrides).texts) (named : Token.isAlias s = true)
      (given : parent.toDocument.Resolved → overrides.toDocument.Distinct →
        (place, s) ∈ (overrides.under name).texts) :
      Hindered catalogue source name overrides (.unresolvedAlias (Text.join '.' place) s)
  | misshapen {parent : Theme} {cause : ShapeError} (held : catalogue.get source = .ok parent)
      (resolved : (parent.blend name overrides).Resolved)
      (unread : Theme.schema.read (parent.blend name overrides) = .error cause) :
      Hindered catalogue source name overrides (.shape cause)

theorem hindered_of_derived (failed : catalogue.derived source name overrides = .error e) :
    catalogue.Hindered source name overrides e := by
  cases there : catalogue.themes.value? source with
  | none =>
      have absent := Entries.value?_eq_none.mp there
      rw [derived_of_absent absent, Except.error.injEq] at failed
      exact failed ▸ .missing absent
  | some parent =>
      have held := get_eq_ok_iff.mpr there
      rw [derived_eq held] at failed
      by_cases resolved : (parent.blend name overrides).Resolved
      · rw [ofDocument_of_resolved resolved] at failed
        cases read : Theme.schema.read (parent.blend name overrides) with
        | ok root => simp [read] at failed
        | error cause =>
            simp only [read, Except.error.injEq] at failed
            exact failed ▸ .misshapen held resolved read
      · obtain ⟨e', failed', place, s, listed, named, rfl⟩ := ofDocument_of_alias resolved
        rw [failed, Except.error.injEq] at failed'
        refine failed' ▸ .aliased held listed named ?_
        intro plain distinct
        have renamed : (overrides.under name).Distinct := Document.distinct_put distinct trivial
        rcases Document.of_mem_texts_merge renamed listed with old | new
        · rw [plain _ old] at named
          cases named
        · exact new

/--
What a derivation comes to: a refusal that leaves all as it was, or one entry that is new, with the theme
that is read from the blend.
-/
inductive Derivation (catalogue : Catalogue) (source name : String) (overrides : Overrides) :
    Except ThemeError Theme × Catalogue → Prop
  | refused (e : ThemeError) (hindered : catalogue.Hindered source name overrides e) :
      Derivation catalogue source name overrides (.error e, catalogue)
  | added {parent : Theme} (theme : Theme) (next : Catalogue)
      (held : catalogue.get source = .ok parent)
      (made : ofDocument (parent.blend name overrides) = .ok theme) (own : theme.name = name)
      (here : next.get name = .ok theme)
      (others : ∀ other, other ≠ name → next.get other = catalogue.get other)
      (order : next.names =
        if name ∈ catalogue.names then catalogue.names else catalogue.names ++ [name]) :
      Derivation catalogue source name overrides (.ok theme, next)

theorem derivation_of_derive (distinct : overrides.root.names.Nodup) :
    catalogue.Derivation source name overrides (catalogue.derive source name overrides) := by
  cases made : catalogue.derived source name overrides with
  | error e =>
      rw [derive_of_error made]
      exact .refused e (hindered_of_derived made)
  | ok theme =>
      rw [derive_of_ok made]
      obtain ⟨parent, held, read⟩ := derived_eq_ok_iff.mp made
      have own := name_of_derived distinct made
      subst own
      apply Derivation.added theme _ held read rfl
      · rw [get, register, Entries.value?_put_self]
      · intro other different
        rw [get, register, Entries.value?_put_of_ne different, get]
      · exact names_register catalogue theme

theorem sortedNames_spec (distinct : catalogue.names.Nodup) :
    catalogue.sortedNames.Pairwise (· < ·) ∧ catalogue.sortedNames.Perm catalogue.names := by
  have perm : catalogue.sortedNames.Perm catalogue.names := List.mergeSort_perm _ _
  refine ⟨?_, perm⟩
  have sorted : catalogue.sortedNames.Pairwise fun a b => decide (a ≤ b) = true := by
    apply List.pairwise_mergeSort
    · intro a b c first second
      simp only [decide_eq_true_eq] at first second ⊢
      exact String.le_trans first second
    · intro a b
      simpa using String.le_total a b
  have apart : catalogue.sortedNames.Nodup := perm.nodup_iff.mpr distinct
  apply (sorted.and apart).imp
  intro a b both
  apply String.not_le.mp
  intro back
  exact both.2 (String.le_antisymm (of_decide_eq_true both.1) back)

end Catalogue

namespace Chronicle

variable {chronicle : Chronicle} {name : String} {theme : Theme} {call : Call}

theorem faithful_empty : Faithful ⟨.empty, []⟩ where
  own := List.forall_mem_nil _
  distinct := List.nodup_nil
  held := fun _ => rfl
  entered := by simp [Catalogue.names, Catalogue.empty, Entries.names, entered?]
  order := List.Pairwise.nil

/-- A name that is held keeps its place, and a new one goes behind all others. -/
theorem Faithful.store (faithful : chronicle.Faithful) (own : theme.name = name) :
    Faithful
      ⟨⟨chronicle.catalogue.themes.put name theme⟩, .stored name theme :: chronicle.events⟩ where
  own := by
    intro entry listed
    rcases Entries.of_mem_put listed with ⟨here, same⟩ | old
    · rw [here, same, own]
    · exact faithful.own entry old
  distinct := Entries.nodup_names_put theme faithful.distinct
  held := by
    intro other
    by_cases same : name = other
    · subst same
      rw [Entries.value?_put_self, lastStored?, if_pos rfl]
    · rw [Entries.value?_put_of_ne (Ne.symm same), faithful.held, lastStored?, if_neg same]
  entered := by
    intro other
    have before := faithful.entered other
    simp only [Catalogue.names] at before ⊢
    rw [Entries.names_put]
    by_cases same : name = other
    · subst same
      rw [iff_true_right entered?_stored_isSome]
      split
      · assumption
      · exact List.mem_append_right _ (List.mem_singleton_self name)
    · rw [entered?_stored_of_ne same, ← before]
      split
      · rfl
      · simp [Ne.symm same]
  order := by
    simp only [Catalogue.names]
    rw [Entries.names_put]
    split
    · rename_i known
      have kept := (faithful.entered name).mp known
      simp only [entered?_stored_again kept]
      exact faithful.order
    · rename_i fresh
      have absent : entered? name chronicle.events = none := by
        simpa using mt (faithful.entered name).mpr fresh
      have apart {other : String} (listed : other ∈ chronicle.catalogue.names) : name ≠ other :=
        fun same => fresh (same ▸ listed)
      rw [List.pairwise_append]
      refine ⟨?_, List.pairwise_singleton _ _, ?_⟩
      · apply faithful.order.imp_of_mem
        intro first second early late before
        rwa [entered?_stored_of_ne (apart early), entered?_stored_of_ne (apart late)]
      · intro first early second late place later here behind
        cases List.mem_singleton.mp late
        exact entered?_lt_of_fresh absent (apart early) here behind

theorem Faithful.delete (faithful : chronicle.Faithful) (name : String) :
    Faithful ⟨(chronicle.catalogue.remove name).2, .removed name :: chronicle.events⟩ where
  own := fun entry listed => faithful.own entry (Entries.mem_of_mem_remove listed)
  distinct := by
    rw [Catalogue.names_remove]
    exact faithful.distinct.erase name
  held := by
    intro other
    by_cases same : name = other
    · subst same
      rw [lastStored?, if_pos rfl]
      exact Entries.value?_remove_self faithful.distinct
    · rw [lastStored?, if_neg same, ← faithful.held]
      exact Entries.value?_remove_of_ne (Ne.symm same)
  entered := by
    intro other
    rw [Catalogue.names_remove, faithful.distinct.mem_erase_iff]
    by_cases same : name = other
    · simp [entered?, same]
    · rw [entered?_removed_of_ne same, ← faithful.entered]
      exact and_iff_right (Ne.symm same)
  order := by
    rw [Catalogue.names_remove]
    apply (faithful.order.sublist List.erase_sublist).imp_of_mem
    intro first second early late before
    have apart {other : String} (kept : other ∈ chronicle.catalogue.names.erase name) :
        name ≠ other := Ne.symm (faithful.distinct.mem_erase_iff.mp kept).1
    rwa [entered?_removed_of_ne (apart early), entered?_removed_of_ne (apart late)]

theorem perform_derive_of_ok {source : String} {overrides : Overrides}
    (made : chronicle.catalogue.derived source name overrides = .ok theme) :
    chronicle.perform (.derive source name overrides) =
      ⟨chronicle.catalogue.register theme, .stored name theme :: chronicle.events⟩ := by
  rw [perform, Catalogue.perform, Catalogue.event?, Catalogue.derive_of_ok made]
  rfl

theorem perform_derive_of_error {source : String} {overrides : Overrides} {e : ThemeError}
    (failed : chronicle.catalogue.derived source name overrides = .error e) :
    chronicle.perform (.derive source name overrides) = chronicle := by
  rw [perform, Catalogue.perform, Catalogue.event?, Catalogue.derive_of_error failed]
  rfl

theorem Faithful.perform (faithful : chronicle.Faithful) (distinct : call.Distinct) :
    (chronicle.perform call).Faithful := by
  cases call with
  | register theme => exact faithful.store rfl
  | remove name => exact faithful.delete name
  | derive source name overrides =>
      cases made : chronicle.catalogue.derived source name overrides with
      | error e =>
          rw [perform_derive_of_error made]
          exact faithful
      | ok theme =>
          rw [perform_derive_of_ok made, ← Catalogue.name_of_derived distinct made]
          exact faithful.store rfl

theorem Faithful.run {calls : List Call} (faithful : chronicle.Faithful)
    (distinct : ∀ call ∈ calls, call.Distinct) : (calls.foldl Chronicle.perform chronicle).Faithful := by
  induction calls generalizing chronicle with
  | nil => exact faithful
  | cons call rest ih =>
      obtain ⟨first, others⟩ := List.forall_mem_cons.mp distinct
      exact ih (faithful.perform first) others

/--
After any calls every theme stands under its own name, the theme last stored there is the one that is
found, names stand in the order in which they entered, and a derivation either adds one entry or leaves
all as it was.
-/
theorem run_spec (calls : List Call) (distinct : ∀ call ∈ calls, call.Distinct) :
    (run calls).Faithful ∧
    (∀ name, (run calls).catalogue.get name =
      match lastStored? name (run calls).events with
      | some theme => .ok theme
      | none => .error (.themeNotFound name)) ∧
    ((run calls).catalogue.sortedNames.Pairwise (· < ·) ∧
      (run calls).catalogue.sortedNames.Perm (run calls).catalogue.names) ∧
    ∀ source name overrides, overrides.root.names.Nodup →
      (run calls).catalogue.Derivation source name overrides
        ((run calls).catalogue.derive source name overrides) := by
  have faithful : (run calls).Faithful := faithful_empty.run distinct
  refine ⟨faithful, ?_, Catalogue.sortedNames_spec faithful.distinct, ?_⟩
  · intro name
    cases stored : lastStored? name (run calls).events <;>
      simp only [Catalogue.get, faithful.held, stored]
  · intro source name overrides once
    exact Catalogue.derivation_of_derive once

/-- A theme that is derived from another is there under its own name when the other is removed. -/
theorem run_light_dark : ∃ light dark,
    ofDocument (uniformWith "light" (.integer 0) []) = .ok light ∧
    ((run [.register light]).catalogue.derive "light" "dark" ⟨[("name", .object [])]⟩).1 = .ok dark ∧
    let calls := [Call.register light, .derive "light" "dark" ⟨[("name", .object [])]⟩,
      .derive "none" "dark" ⟨[]⟩, .remove "light"]
    (∀ call ∈ calls, call.Distinct) ∧ (run calls).Faithful ∧
      (run calls).catalogue.names = ["dark"] ∧ (run calls).catalogue.get "dark" = .ok dark ∧
      dark.name = "dark" ∧ (run calls).catalogue.get "light" = .error (.themeNotFound "light") := by
  obtain ⟨declared, read⟩ : ∃ declared, ofDocument (uniformWith "light" (.integer 0) []) =
      .ok ⟨.record declared []⟩ := ofDocument_uniform (by decide) _
  generalize (⟨.record declared []⟩ : Theme) = light at read
  have named : light.name = "light" :=
    name_of_read (ofDocument_eq_ok_iff.mp read).2 (at?_uniformWith name_leaf)
  obtain ⟨dark, renamed⟩ : ∃ dark,
      ofDocument (light.toDocument.merge (.object [("name", .text "dark")])) = .ok dark :=
    exists_renamed read (uniformWith_numbers (by decide) trivial) (by decide)
  have made : Catalogue.derived ⟨[("light", light)]⟩ "light" "dark" ⟨[("name", .object [])]⟩ =
      .ok dark := Catalogue.derived_eq_ok_iff.mpr ⟨light, rfl, renamed⟩
  have own : dark.name = "dark" := Catalogue.name_of_derived (by decide) made
  have first : run [.register light] = ⟨⟨[("light", light)]⟩, [.stored "light" light]⟩ := by
    simp [run, perform, Catalogue.perform, Catalogue.register, Catalogue.event?, named,
      Catalogue.empty, Entries.put]
  have second : (run [.register light]).perform
      (.derive "light" "dark" ⟨[("name", .object [])]⟩) =
        ⟨⟨[("light", light), ("dark", dark)]⟩, [.stored "dark" dark, .stored "light" light]⟩ := by
    rw [first, perform_derive_of_ok made, Catalogue.register, own]
    rfl
  have third : Catalogue.derived ⟨[("light", light), ("dark", dark)]⟩ "none" "dark" ⟨[]⟩ =
      .error (.themeNotFound "none") :=
    Catalogue.derived_of_absent (by simp [Catalogue.names, Entries.names])
  have all : run [.register light, .derive "light" "dark" ⟨[("name", .object [])]⟩,
      .derive "none" "dark" ⟨[]⟩, .remove "light"] =
      ⟨⟨[("dark", dark)]⟩, [.removed "light", .stored "dark" dark, .stored "light" light]⟩ := by
    change (((run [.register light]).perform _).perform _).perform _ = _
    rw [second, perform_derive_of_error third]
    rfl
  have distinct : ∀ call ∈ [Call.register light, .derive "light" "dark" ⟨[("name", .object [])]⟩,
      .derive "none" "dark" ⟨[]⟩, .remove "light"], call.Distinct := by
    simp [Call.Distinct, Entries.names]
  refine ⟨light, dark, read, ?_, distinct, ?_⟩
  · rw [first, Catalogue.derive_of_ok made]
  · obtain ⟨faithful, found, -, -⟩ := run_spec _ distinct
    refine ⟨faithful, ?_, ?_, own, ?_⟩
    · rw [all]
      rfl
    · rw [found, all]
      rfl
    · rw [found, all]
      rfl

end Chronicle

end DesignTokens.Theme
