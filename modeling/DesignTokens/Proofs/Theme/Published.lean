import DesignTokens.Proofs.Build.Task
import DesignTokens.Proofs.Theme.Rereading
import Mathlib.Logic.Relation

/-!
No theme that was ever published holds an alias. A run starts with nothing and makes themes, drafts
and catalogues out of trees, documents, files and build plans and out of what it has made before.
Each way to make a theme ends in reading a document, and each way to make a draft in the check for
aliases.
-/

namespace DesignTokens.Theme

open Build Token

/-- What a run has made so far. Catalogues that have changed since are still there. -/
structure Stock where
  themes : List Theme
  drafts : List Draft
  catalogues : List Catalogue
  base : Base

namespace Stock

def empty : Stock := ⟨[], [], [], .unset⟩

def addTheme (stock : Stock) (theme : Theme) : Stock :=
  { stock with themes := theme :: stock.themes }

def addDraft (stock : Stock) (draft : Draft) : Stock :=
  { stock with drafts := draft :: stock.drafts }

def addCatalogue (stock : Stock) (catalogue : Catalogue) : Stock :=
  { stock with catalogues := catalogue :: stock.catalogues }

/-- Whatever adds to a stock or settles the base theme. A failure adds nothing. -/
inductive Step : Stock → Stock → Prop
  | assembled {stock : Stock} {theme : Theme} (tree : Tree) (fields : List Field) (name : String)
      (done : assembleWith tree fields name = .ok theme) : Step stock (stock.addTheme theme)
  | read {stock : Stock} {theme : Theme} (document : Document)
      (done : Theme.ofDocument document = .ok theme) : Step stock (stock.addTheme theme)
  | parsed {stock : Stock} {theme : Theme} (format : Format) (file text : String)
      (done : readTheme format file text = .ok theme) : Step stock (stock.addTheme theme)
  | loaded {stock : Stock} {theme : Theme} {σ : Type} [Disk (StateM σ)] {disk next : σ}
      (file : String)
      (done : (loadTheme file : Task (StateM σ) Theme).run disk = (.ok theme, next)) :
      Step stock (stock.addTheme theme)
  | typed {stock : Stock} {theme : Theme} {draft : Draft} (held : draft ∈ stock.drafts)
      (done : draft.toTheme = .ok theme) : Step stock (stock.addTheme theme)
  | asked {stock : Stock} {theme : Theme} {base : Base} (done : stock.base.get = (.ok theme, base)) :
      Step stock { stock.addTheme theme with base := base }
  | installed {stock : Stock} {theme : Theme} (held : theme ∈ stock.themes) :
      Step stock { stock with base := (stock.base.install theme).2 }
  | drafted {stock : Stock} {draft : Draft} (document : Document)
      (done : Draft.ofDocument document = .ok draft) : Step stock (stock.addDraft draft)
  | derived {stock : Stock} {theme : Theme} {draft : Draft} (overrides : Overrides)
      (held : theme ∈ stock.themes) (done : theme.derive overrides = .ok draft) :
      Step stock (stock.addDraft draft)
  | created {stock : Stock} {draft : Draft} {base : Base} (overrides : Overrides)
      (theme? : Option Theme) (held : ∀ theme ∈ theme?, theme ∈ stock.themes)
      (done : create overrides theme? stock.base = (.ok draft, base)) :
      Step stock { stock.addDraft draft with base := base }
  | opened {stock : Stock} : Step stock (stock.addCatalogue .empty)
  | openedOnBase {stock : Stock} {catalogue : Catalogue} {base : Base}
      (done : Catalogue.ofBase stock.base = (.ok catalogue, base)) :
      Step stock { stock.addCatalogue catalogue with base := base }
  | registered {stock : Stock} {catalogue : Catalogue} {theme : Theme}
      (kept : catalogue ∈ stock.catalogues) (held : theme ∈ stock.themes) :
      Step stock (stock.addCatalogue (catalogue.register theme))
  | derivedIn {stock : Stock} {catalogue next : Catalogue} {theme : Theme} (source name : String)
      (overrides : Overrides) (kept : catalogue ∈ stock.catalogues)
      (done : catalogue.derive source name overrides = (.ok theme, next)) :
      Step stock ((stock.addTheme theme).addCatalogue next)
  | taken {stock : Stock} {catalogue : Catalogue} {theme : Theme} (name : String)
      (kept : catalogue ∈ stock.catalogues) (done : catalogue.get name = .ok theme) :
      Step stock (stock.addTheme theme)
  | removed {stock : Stock} {catalogue : Catalogue} (name : String)
      (kept : catalogue ∈ stock.catalogues) :
      Step stock (stock.addCatalogue (catalogue.remove name).2)
  | checked {stock : Stock} {themes : List Theme} {σ : Type} [Disk (StateM σ)] {disk next : σ}
      (plan : Plan)
      (done : (check plan : Task (StateM σ) (List Theme)).run disk = (.ok themes, next)) :
      Step stock { stock with themes := themes ++ stock.themes }
  | collected {stock : Stock} {catalogue : Catalogue} {σ : Type} [Disk (StateM σ)] {disk next : σ}
      (folder : String)
      (done : (loadGenerated folder : Task (StateM σ) Catalogue).run disk = (.ok catalogue, next)) :
      Step stock (stock.addCatalogue catalogue)

end Stock

variable {theme : Theme} {draft : Draft} {catalogue next : Catalogue} {base base' : Base}

def Resolved (theme : Theme) : Prop := theme.toDocument.Resolved

def Catalogue.Resolved (catalogue : Catalogue) : Prop :=
  ∀ entry ∈ catalogue.themes, entry.2.Resolved

def Base.Resolved (base : Base) : Prop := ∀ theme, base.theme? = some theme → theme.Resolved

theorem resolved_of_assembleWith {tree : Tree} {fields : List Field} {name : String}
    (done : assembleWith tree fields name = .ok theme) : theme.Resolved := by
  rw [assembleWith] at done
  cases made : assembleDocument tree fields name with
  | error e => simp [made] at done
  | ok document =>
      simp only [made] at done
      exact ofDocument_resolved done

theorem resolved_of_readTheme {format : Format} {file text : String}
    (done : readTheme format file text = .ok theme) : theme.Resolved := by
  rw [readTheme] at done
  cases found : readDocument format file text with
  | error e => simp [found] at done
  | ok document =>
      simp only [found] at done
      exact ofDocument_resolved done

theorem resolved_of_loadTheme {σ : Type} [Disk (StateM σ)] {disk next : σ} {file : String}
    (done : (loadTheme file : Task (StateM σ) Theme).run disk = (.ok theme, next)) :
    theme.Resolved := by
  obtain ⟨document, middle, -, read⟩ := exists_of_run_bind done
  rw [run_succeed] at read
  exact ofDocument_resolved (Prod.mk.inj read).1

theorem Base.resolved_of_get (resolved : base.Resolved) (done : base.get = (.ok theme, base')) :
    theme.Resolved ∧ base'.Resolved := by
  rw [Base.get] at done
  cases settled : base.theme? with
  | some old =>
      simp only [settled, Prod.mk.injEq, Except.ok.injEq] at done
      obtain ⟨rfl, rfl⟩ := done
      exact ⟨resolved _ settled, resolved⟩
  | none =>
      cases assembled : standard with
      | error e => simp [settled, assembled] at done
      | ok fresh =>
          simp only [settled, assembled, Prod.mk.injEq, Except.ok.injEq] at done
          obtain ⟨rfl, rfl⟩ := done
          have plain : fresh.Resolved := resolved_of_assembleWith assembled
          refine ⟨plain, ?_⟩
          intro other same
          cases same
          exact plain

theorem Base.resolved_install (resolved : base.Resolved) (plain : theme.Resolved) :
    (base.install theme).2.Resolved := by
  rw [Base.install]
  cases settled : base.theme? with
  | some old => exact resolved
  | none =>
      intro other same
      cases same
      exact plain

theorem Draft.resolved_of_toTheme (done : draft.toTheme = .ok theme) : theme.Resolved :=
  ofDocument_resolved done

theorem resolved_of_derive {overrides : Overrides} (done : theme.derive overrides = .ok draft) :
    draft.document.Resolved := by
  obtain ⟨resolved, same⟩ := Draft.ofDocument_eq_ok_iff.mp done
  rwa [same]

theorem resolved_of_create {overrides : Overrides} {theme? : Option Theme}
    (resolved : base.Resolved) (done : create overrides theme? base = (.ok draft, base')) :
    draft.document.Resolved ∧ base'.Resolved := by
  cases theme? with
  | some theme =>
      obtain ⟨derived, rfl⟩ := Prod.mk.inj done
      exact ⟨resolved_of_derive derived, resolved⟩
  | none =>
      rw [create] at done
      cases asked : base.get with
      | mk result settled =>
          cases result with
          | error e => simp [asked] at done
          | ok theme =>
              simp only [asked, Prod.mk.injEq] at done
              obtain ⟨derived, rfl⟩ := done
              exact ⟨resolved_of_derive derived, (Base.resolved_of_get resolved asked).2⟩

namespace Catalogue

theorem resolved_empty : empty.Resolved := List.forall_mem_nil _

theorem resolved_register (resolved : catalogue.Resolved) (plain : theme.Resolved) :
    (catalogue.register theme).Resolved := by
  intro entry listed
  rcases Entries.of_mem_put listed with ⟨-, same⟩ | old
  · rwa [same]
  · exact resolved entry old

theorem resolved_remove (resolved : catalogue.Resolved) (name : String) :
    (catalogue.remove name).2.Resolved := by
  intro entry listed
  exact resolved entry (Entries.mem_of_mem_remove listed)

theorem resolved_of_get {name : String} (resolved : catalogue.Resolved)
    (done : catalogue.get name = .ok theme) : theme.Resolved := by
  rw [get] at done
  cases found : catalogue.themes.value? name with
  | none => simp [found] at done
  | some other =>
      simp only [found, Except.ok.injEq] at done
      exact done ▸ resolved _ (Entries.mem_of_value? found)

theorem resolved_of_ofBase (resolved : base.Resolved)
    (done : ofBase base = (.ok catalogue, base')) : catalogue.Resolved ∧ base'.Resolved := by
  rw [ofBase] at done
  cases asked : base.get with
  | mk result settled =>
      cases result with
      | error e => simp [asked] at done
      | ok theme =>
          simp only [asked, Prod.mk.injEq, Except.ok.injEq] at done
          obtain ⟨rfl, rfl⟩ := done
          obtain ⟨plain, settled⟩ := Base.resolved_of_get resolved asked
          exact ⟨resolved_register resolved_empty plain, settled⟩

theorem resolved_of_derived {source name : String} {overrides : Overrides}
    (done : catalogue.derived source name overrides = .ok theme) : theme.Resolved := by
  rw [derived] at done
  cases found : catalogue.get source with
  | error e => simp [found] at done
  | ok parent =>
      cases made : parent.derive (overrides.set "name" (.text name)) with
      | error e => simp [found, made] at done
      | ok draft =>
          simp only [found, made] at done
          exact Draft.resolved_of_toTheme done

theorem resolved_of_derive {source name : String} {overrides : Overrides}
    (resolved : catalogue.Resolved)
    (done : catalogue.derive source name overrides = (.ok theme, next)) :
    theme.Resolved ∧ next.Resolved := by
  rw [derive] at done
  cases made : catalogue.derived source name overrides with
  | error e => simp [made] at done
  | ok fresh =>
      simp only [made, Prod.mk.injEq, Except.ok.injEq] at done
      obtain ⟨rfl, rfl⟩ := done
      have plain := resolved_of_derived made
      exact ⟨plain, resolved_register resolved plain⟩

end Catalogue

section

variable {σ : Type} [Disk (StateM σ)] {disk next : σ}

theorem resolved_of_assembleJob {plan : Plan} {job : Job}
    (done : (assembleJob plan job : Task (StateM σ) Theme).run disk = (.ok theme, next)) :
    theme.Resolved := by
  obtain ⟨tree, middle, -, made⟩ := exists_of_run_bind done
  rw [run_succeed] at made
  exact resolved_of_assembleWith (Prod.mk.inj made).1

theorem resolved_of_assembleJobs {plan : Plan} {jobs : List Job} {themes : List Theme}
    (done : (assembleJobs plan jobs : Task (StateM σ) (List Theme)).run disk = (.ok themes, next)) :
    ∀ theme ∈ themes, theme.Resolved := by
  induction jobs generalizing themes disk with
  | nil =>
      cases done
      exact List.forall_mem_nil _
  | cons job rest ih =>
      obtain ⟨theme, middle, first, later⟩ := exists_of_run_bind done
      obtain ⟨others, last, behind, finished⟩ := exists_of_run_bind later
      cases finished
      exact List.forall_mem_cons.mpr ⟨resolved_of_assembleJob first, ih behind⟩

theorem resolved_of_loadListings {folder : String} {listings : List Listing} {loaded : Catalogue}
    (resolved : catalogue.Resolved)
    (done : (loadListings folder listings catalogue : Task (StateM σ) Catalogue).run disk =
      (.ok loaded, next)) : loaded.Resolved := by
  induction listings generalizing catalogue disk with
  | nil =>
      cases done
      exact resolved
  | cons listing rest ih =>
      obtain ⟨theme, middle, first, later⟩ := exists_of_run_bind done
      exact ih (Catalogue.resolved_register resolved (resolved_of_loadTheme first)) later

theorem resolved_of_loadGenerated {folder : String}
    (done : (loadGenerated folder : Task (StateM σ) Catalogue).run disk = (.ok catalogue, next)) :
    catalogue.Resolved := by
  obtain ⟨manifest, middle, -, later⟩ := exists_of_run_bind done
  exact resolved_of_loadListings Catalogue.resolved_empty later

end

namespace Stock

variable {stock after : Stock}

structure Resolved (stock : Stock) : Prop where
  themes : ∀ theme ∈ stock.themes, theme.Resolved
  drafts : ∀ draft ∈ stock.drafts, draft.document.Resolved
  catalogues : ∀ catalogue ∈ stock.catalogues, catalogue.Resolved
  base : stock.base.Resolved

theorem resolved_empty : empty.Resolved where
  themes := List.forall_mem_nil _
  drafts := List.forall_mem_nil _
  catalogues := List.forall_mem_nil _
  base := fun _ settled => nomatch settled

theorem Resolved.addTheme (resolved : stock.Resolved) (plain : theme.Resolved) :
    (stock.addTheme theme).Resolved :=
  { resolved with themes := List.forall_mem_cons.mpr ⟨plain, resolved.themes⟩ }

theorem Resolved.addDraft (resolved : stock.Resolved) (plain : draft.document.Resolved) :
    (stock.addDraft draft).Resolved :=
  { resolved with drafts := List.forall_mem_cons.mpr ⟨plain, resolved.drafts⟩ }

theorem Resolved.addCatalogue (resolved : stock.Resolved) (plain : catalogue.Resolved) :
    (stock.addCatalogue catalogue).Resolved :=
  { resolved with catalogues := List.forall_mem_cons.mpr ⟨plain, resolved.catalogues⟩ }

theorem Resolved.withBase (resolved : stock.Resolved) (plain : base.Resolved) :
    { stock with base := base }.Resolved :=
  { resolved with base := plain }

theorem Resolved.step (resolved : stock.Resolved) (step : Step stock after) : after.Resolved := by
  cases step with
  | assembled tree fields name done => exact resolved.addTheme (resolved_of_assembleWith done)
  | read document done => exact resolved.addTheme (ofDocument_resolved done)
  | parsed format file text done => exact resolved.addTheme (resolved_of_readTheme done)
  | loaded file done => exact resolved.addTheme (resolved_of_loadTheme done)
  | typed held done => exact resolved.addTheme (Draft.resolved_of_toTheme done)
  | asked done =>
      obtain ⟨plain, settled⟩ := Base.resolved_of_get resolved.base done
      exact (resolved.addTheme plain).withBase settled
  | installed held =>
      exact resolved.withBase (Base.resolved_install resolved.base (resolved.themes _ held))
  | drafted document done =>
      obtain ⟨plain, same⟩ := Draft.ofDocument_eq_ok_iff.mp done
      exact resolved.addDraft (same ▸ plain)
  | derived overrides held done => exact resolved.addDraft (resolved_of_derive done)
  | created overrides theme? held done =>
      obtain ⟨plain, settled⟩ := resolved_of_create resolved.base done
      exact (resolved.addDraft plain).withBase settled
  | opened => exact resolved.addCatalogue Catalogue.resolved_empty
  | openedOnBase done =>
      obtain ⟨plain, settled⟩ := Catalogue.resolved_of_ofBase resolved.base done
      exact (resolved.addCatalogue plain).withBase settled
  | registered kept held =>
      exact resolved.addCatalogue
        (Catalogue.resolved_register (resolved.catalogues _ kept) (resolved.themes _ held))
  | derivedIn source name overrides kept done =>
      obtain ⟨plain, grown⟩ := Catalogue.resolved_of_derive (resolved.catalogues _ kept) done
      exact (resolved.addTheme plain).addCatalogue grown
  | taken name kept done =>
      exact resolved.addTheme (Catalogue.resolved_of_get (resolved.catalogues _ kept) done)
  | removed name kept =>
      exact resolved.addCatalogue (Catalogue.resolved_remove (resolved.catalogues _ kept) name)
  | checked plan done =>
      have made := resolved_of_assembleJobs done
      exact { resolved with themes := List.forall_mem_append.mpr ⟨made, resolved.themes⟩ }
  | collected folder done => exact resolved.addCatalogue (resolved_of_loadGenerated done)

theorem Resolved.run (resolved : stock.Resolved) (run : Relation.ReflTransGen Step stock after) :
    after.Resolved := by
  induction run with
  | refl => exact resolved
  | tail _ step ih => exact ih.step step

end Stock

/-- Whatever a run makes, in whatever order, no text of a theme or draft is ever an alias. -/
theorem resolved_of_run {stock : Stock} (run : Relation.ReflTransGen Stock.Step .empty stock) :
    (∀ theme ∈ stock.themes, theme.toDocument.Resolved) ∧
    (∀ draft ∈ stock.drafts, draft.document.Resolved) ∧
    ∀ catalogue ∈ stock.catalogues, ∀ entry ∈ catalogue.themes, entry.2.toDocument.Resolved := by
  have resolved := Stock.resolved_empty.run run
  exact ⟨resolved.themes, resolved.drafts, resolved.catalogues⟩

/-- A theme is read, derived from with no overrides, typed again and put into a catalogue. -/
theorem resolved_of_short_run : ∃ stock draft, ∃ first again : Theme,
    Relation.ReflTransGen Stock.Step .empty stock ∧ stock.themes = [again, first] ∧
    stock.drafts = [draft] ∧ stock.catalogues = [Catalogue.empty.register again, .empty] ∧
    first.toDocument.Resolved ∧ again.toDocument.Resolved ∧ draft.document.Resolved := by
  have fit : (blankWith []).AllNumbers Number.Fits := uniformWith_numbers (by decide) trivial
  obtain ⟨declared, read⟩ := ofDocument_blank
  have known : ∀ theme ∈ some (Theme.mk (.record declared [])),
      theme ∈ [Theme.mk (.record declared [])] := by
    intro theme same
    exact List.mem_singleton.mpr (Option.some.inj same).symm
  have one : Relation.ReflTransGen Stock.Step .empty _ := .single (.read _ read)
  have two := one.tail (.created .empty _ known (create_empty read .unset))
  have three := two.tail (.typed List.mem_cons_self (ofDocument_toDocument read fit))
  have four := three.tail .opened
  have five := four.tail (.registered List.mem_cons_self List.mem_cons_self)
  obtain ⟨themes, drafts, -⟩ := resolved_of_run five
  have first := themes _ (List.mem_cons_of_mem _ List.mem_cons_self)
  have again := themes _ List.mem_cons_self
  exact ⟨_, _, _, _, five, rfl, rfl, rfl, first, again, drafts _ List.mem_cons_self⟩

end DesignTokens.Theme
