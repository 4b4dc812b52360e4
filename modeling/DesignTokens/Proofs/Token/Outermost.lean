import DesignTokens.Proofs.Document.Distinct
import DesignTokens.Proofs.Document.Induction
import DesignTokens.Token.Tree

/-!
The places of the outermost tokens. A walk down to one goes through objects without a value, and the walk
over the tree meets them in the order of the document. It keeps one trail of names for all of them, and
leaves behind it the trail that it was given.
-/

namespace DesignTokens.Token.Tree

def IsToken (node : Document) : Prop := ∃ value, node.field? valueKey = some value

def IsGroup (node : Document) : Prop :=
  ∃ entries : Entries Document, node = .object entries ∧ entries.value? valueKey = none

structure Leads (document : Document) (place : List String) : Prop where
  token : ∃ node, document.at? place = some node ∧ IsToken node
  groups : ∀ before after, place = before ++ after → after ≠ [] →
    ∃ node, document.at? before = some node ∧ IsGroup node

/-- The names lead to a token, and whatever lies between the root and the token is a group. -/
structure Outermost (tree : Tree) (place : List String) : Prop where
  filled : place ≠ []
  token : ∃ node, tree.toDocument.at? place = some node ∧ IsToken node
  groups : ∀ before after, place = before ++ after → after ≠ [] → before ≠ [] →
    ∃ node, tree.toDocument.at? before = some node ∧ IsGroup node

/-- Where two walks part, the one takes a name that stands before the name that the other takes. -/
def Before (document : Document) (place other : List String) : Prop :=
  ∃ common first second rest rest' entries, place = common ++ first :: rest ∧
    other = common ++ second :: rest' ∧ document.at? common = some (.object entries) ∧
    Entries.Precedes entries first second

structure Lists (tree : Tree) (places : List (List String)) : Prop where
  outermost : ∀ place, place ∈ places ↔ tree.Outermost place
  nodup : places.Nodup
  ordered : places.Pairwise (Before tree.toDocument)

variable {tree : Tree} {document value : Document} {entries : Entries Document} {name : String}
  {place other rest : List String}

theorem declaresValue_iff : declaresValue entries = true ↔ IsToken (.object entries) :=
  Option.isSome_iff_exists

theorem not_declaresValue_iff : declaresValue entries = false ↔ IsGroup (.object entries) := by
  rw [declaresValue, Option.isSome_eq_false_iff, Option.isNone_iff_eq_none]
  constructor
  · intro absent
    exact ⟨entries, rfl, absent⟩
  · rintro ⟨_, ⟨rfl⟩, absent⟩
    exact absent

theorem forall_proper_prefix_cons {holds : List String → Prop} :
    (∀ before after, name :: rest = before ++ after → after ≠ [] → holds before) ↔
      holds [] ∧ ∀ before after, rest = before ++ after → after ≠ [] → holds (name :: before) := by
  constructor
  · intro all
    refine ⟨all [] _ rfl (List.cons_ne_nil name rest), ?_⟩
    intro before after cut more
    exact all (name :: before) after (by rw [cut]; rfl) more
  · rintro ⟨first, others⟩ before after cut more
    cases before with
    | nil => exact first
    | cons head before =>
        obtain ⟨rfl, cut'⟩ := List.cons.inj cut
        exact others before after cut' more

theorem leads_nil : Leads document [] ↔ IsToken document := by
  constructor
  · rintro ⟨⟨node, here, declares⟩, -⟩
    cases here
    exact declares
  · intro declares
    refine ⟨⟨document, rfl, declares⟩, ?_⟩
    intro before after nothing more
    exact absurd (List.append_eq_nil_iff.mp nothing.symm).2 more

theorem leads_cons : Leads document (name :: rest) ↔
    IsGroup document ∧ ∃ value, document.field? name = some value ∧ Leads value rest := by
  constructor
  · rintro ⟨⟨node, reached, declares⟩, groups⟩
    obtain ⟨value, step, below⟩ := Option.bind_eq_some_iff.mp reached
    obtain ⟨⟨start, here, group⟩, groups'⟩ := forall_proper_prefix_cons.mp groups
    cases here
    simp only [Document.at?_of_field step] at groups'
    exact ⟨group, value, step, ⟨node, below, declares⟩, groups'⟩
  · rintro ⟨group, value, step, ⟨node, below, declares⟩, groups⟩
    refine ⟨⟨node, (Document.at?_of_field step rest).trans below, declares⟩, ?_⟩
    rw [forall_proper_prefix_cons]
    simp only [Document.at?_of_field step]
    exact ⟨⟨document, rfl, group⟩, groups⟩

theorem outermost_cons : tree.Outermost (name :: rest) ↔
    ∃ value, tree.toDocument.field? name = some value ∧ Leads value rest := by
  constructor
  · rintro ⟨-, ⟨node, reached, declares⟩, groups⟩
    obtain ⟨value, step, below⟩ := Option.bind_eq_some_iff.mp reached
    obtain ⟨-, groups'⟩ := forall_proper_prefix_cons.mp groups
    simp only [Document.at?_of_field step, ne_eq, List.cons_ne_nil, not_false_eq_true,
      true_imp_iff] at groups'
    exact ⟨value, step, ⟨node, below, declares⟩, groups'⟩
  · rintro ⟨value, step, ⟨node, below, declares⟩, groups⟩
    have reached := (Document.at?_of_field step rest).trans below
    refine ⟨List.cons_ne_nil name rest, ⟨node, reached, declares⟩, ?_⟩
    rw [forall_proper_prefix_cons]
    refine ⟨absurd rfl, ?_⟩
    simpa only [Document.at?_of_field step, ne_eq, List.cons_ne_nil, not_false_eq_true,
      true_imp_iff] using groups

mutual

def outermost : Document → List (List String)
  | .object entries => if declaresValue entries then [[]] else outermostIn entries
  | _ => []

def outermostIn : List (String × Document) → List (List String)
  | [] => []
  | (name, value) :: rest => (outermost value).map (name :: ·) ++ outermostIn rest

end

mutual

theorem collect_eq (trail listed : List String) (name : String) : (document : Document) →
    collect trail listed name document =
      (trail, listed ++ (outermost document).map fun place => Text.join '.' (trail ++ name :: place))
  | .object entries => by
      rw [collect, outermost]
      cases declaresValue entries with
      | true => simp
      | false =>
          have walked := collectIn_eq (trail ++ [name]) listed entries
          simp only [List.append_assoc, List.singleton_append] at walked
          simp [walked]
  | .null => by simp [collect, outermost]
  | .bool _ => by simp [collect, outermost]
  | .number _ => by simp [collect, outermost]
  | .text _ => by simp [collect, outermost]
  | .array _ => by simp [collect, outermost]

/-- Every name that is put on the trail is taken off again, so the entries are walked from the same one. -/
theorem collectIn_eq (trail listed : List String) : (entries : List (String × Document)) →
    collectIn trail listed entries =
      (trail, listed ++ (outermostIn entries).map fun place => Text.join '.' (trail ++ place))
  | [] => by simp [collectIn, outermostIn]
  | (name, value) :: rest => by
      have first := collect_eq trail listed name value
      have others := collectIn_eq trail (collect trail listed name value).2 rest
      simp only [first] at others
      rw [collectIn, first, outermostIn, List.map_append, List.map_map, ← List.append_assoc]
      exact others

end

theorem tokenPaths_eq (tree : Tree) :
    tree.tokenPaths = (outermostIn tree.root).map fun place => (Path.mk place).text := by
  rw [tokenPaths, collectIn_eq]
  rfl

theorem mem_outermostIn : place ∈ outermostIn entries ↔
    ∃ name value rest, (name, value) ∈ entries ∧ place = name :: rest ∧ rest ∈ outermost value := by
  induction entries with
  | nil => simp [outermostIn]
  | cons head others ih =>
      obtain ⟨first, held⟩ := head
      rw [outermostIn, List.mem_append, ih, List.mem_map]
      constructor
      · rintro (⟨below, listed, rfl⟩ | ⟨name, value, below, present, same, listed⟩)
        · exact ⟨first, held, below, List.mem_cons_self, rfl, listed⟩
        · exact ⟨name, value, below, List.mem_cons_of_mem _ present, same, listed⟩
      · rintro ⟨name, value, below, present, same, listed⟩
        rcases List.mem_cons.mp present with here | later
        · cases here
          exact .inl ⟨below, listed, same.symm⟩
        · exact .inr ⟨name, value, below, later, same, listed⟩

theorem mem_outermost (distinct : document.Distinct) :
    place ∈ outermost document ↔ Leads document place := by
  induction place generalizing document with
  | nil =>
      rw [leads_nil]
      cases document with
      | object entries =>
          rw [outermost, ← declaresValue_iff]
          cases declaresValue entries with
          | true => simp
          | false => simp [mem_outermostIn]
      | _ => simp [outermost, IsToken, Document.field?, Document.entries?]
  | cons name rest ih =>
      rw [leads_cons]
      cases document with
      | object entries =>
          rw [outermost, ← not_declaresValue_iff]
          cases declaresValue entries with
          | true => simp
          | false =>
              simp only [Bool.false_eq_true, if_false, true_and, mem_outermostIn]
              constructor
              · rintro ⟨name, value, rest, present, ⟨rfl, rfl⟩, listed⟩
                have found := Entries.value?_of_mem distinct.names_nodup present
                exact ⟨value, found, (ih (distinct.field found)).mp listed⟩
              · rintro ⟨value, found, below⟩
                exact ⟨name, value, rest, Entries.mem_of_value? found, rfl,
                  (ih (distinct.field found)).mpr below⟩
      | _ => simp [outermost, IsGroup]

theorem mem_outermostIn_iff (distinct : tree.toDocument.Distinct) :
    place ∈ outermostIn tree.root ↔ tree.Outermost place := by
  rw [mem_outermostIn]
  constructor
  · rintro ⟨name, value, rest, present, rfl, listed⟩
    have found := Entries.value?_of_mem distinct.names_nodup present
    exact outermost_cons.mpr ⟨value, found, (mem_outermost (distinct.field found)).mp listed⟩
  · intro outer
    cases place with
    | nil => exact absurd rfl outer.filled
    | cons name rest =>
        obtain ⟨value, found, below⟩ := outermost_cons.mp outer
        exact ⟨name, value, rest, Entries.mem_of_value? found, rfl,
          (mem_outermost (distinct.field found)).mpr below⟩

theorem Before.cons (found : entries.value? name = some value) (earlier : Before value place other) :
    Before (.object entries) (name :: place) (name :: other) := by
  obtain ⟨common, first, second, rest, rest', below, rfl, rfl, reached, precedes⟩ := earlier
  refine ⟨name :: common, first, second, rest, rest', below, rfl, rfl, ?_, precedes⟩
  rw [Document.at?_object, found]
  exact reached

theorem Before.ne (distinct : document.Distinct) (earlier : Before document place other) :
    place ≠ other := by
  obtain ⟨common, first, second, rest, rest', entries, rfl, rfl, reached, precedes⟩ := earlier
  intro same
  obtain ⟨rfl, -⟩ := List.cons.inj (List.append_cancel_left same)
  have twice : [first, first].Nodup := (distinct.at reached).names_nodup.sublist precedes
  exact (List.nodup_cons.mp twice).1 List.mem_cons_self

/-- Over any part of an object's entries: what lies below one comes before what lies below a later one. -/
theorem pairwise_outermostIn (distinct : entries.names.Nodup)
    (each : ∀ entry ∈ entries, (outermost entry.2).Pairwise (Before entry.2))
    {part : Entries Document} (taken : part.Sublist entries) :
    (outermostIn part).Pairwise (Before (.object entries)) := by
  induction part with
  | nil => exact .nil
  | cons head others ih =>
      obtain ⟨name, value⟩ := head
      have present : (name, value) ∈ entries := taken.subset List.mem_cons_self
      have found := Entries.value?_of_mem distinct present
      rw [outermostIn, List.pairwise_append]
      refine ⟨?_, ih (List.sublist_of_cons_sublist taken), ?_⟩
      · rw [List.pairwise_map]
        exact (each _ present).imp (Before.cons found)
      · intro place listed other listed'
        obtain ⟨rest, -, rfl⟩ := List.mem_map.mp listed
        obtain ⟨next, value', rest', later, rfl, -⟩ := mem_outermostIn.mp listed'
        refine ⟨[], name, next, rest, rest', entries, rfl, rfl, rfl, ?_⟩
        have behind : [next].Sublist (others.map Prod.fst) :=
          List.singleton_sublist.mpr (List.mem_map.mpr ⟨_, later, rfl⟩)
        exact (behind.cons_cons name).trans (taken.map Prod.fst)

theorem pairwise_outermost (document : Document) (distinct : document.Distinct) :
    (outermost document).Pairwise (Before document) := by
  induction document using Document.induction with
  | object entries ih =>
      rw [outermost]
      split
      · exact List.pairwise_singleton ..
      · apply pairwise_outermostIn distinct.names_nodup _ (List.Sublist.refl entries)
        intro entry present
        exact ih entry present (Document.distinctEntries_iff.mp distinct.2 entry present)
  | _ => simp [outermost]

theorem lists_outermostIn (distinct : tree.toDocument.Distinct) :
    tree.Lists (outermostIn tree.root) := by
  have ordered : (outermostIn tree.root).Pairwise (Before tree.toDocument) := by
    apply pairwise_outermostIn distinct.names_nodup _ (List.Sublist.refl tree.root)
    intro entry present
    exact pairwise_outermost entry.2 (Document.distinctEntries_iff.mp distinct.2 entry present)
  exact ⟨fun _ => mem_outermostIn_iff distinct, ordered.imp (Before.ne distinct), ordered⟩

end DesignTokens.Token.Tree
