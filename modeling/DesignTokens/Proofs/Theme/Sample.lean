import DesignTokens.Proofs.Theme.Assembled
import DesignTokens.Proofs.Toml.Layout
import Mathlib.Data.List.Nodup

/-!
A token tree for the table of fields. It has a token at every path that a field asks for, of the kind
that the field asks for, so that a theme is assembled from it; and it is laid out as it stands.
-/

namespace DesignTokens.Token

/-- A tree of tokens by their kinds. Names are spelled out, since whole texts are slow to compare. -/
inductive Frame where
  | node (kind? : Option Kind) (below : List (List Char × Frame))

namespace Frame

def child? (name : List Char) : List (List Char × Frame) → Option Frame
  | [] => none
  | (other, frame) :: rest => if other = name then some frame else child? name rest

def setChild (name : List Char) (new : Frame) : List (List Char × Frame) → List (List Char × Frame)
  | [] => [(name, new)]
  | (other, frame) :: rest =>
      if other = name then (other, new) :: rest else (other, frame) :: setChild name new rest

def insert (kind : Kind) : List (List Char) → Frame → Frame
  | [], .node _ below => .node (some kind) below
  | name :: rest, .node kind? below =>
      let next := insert kind rest ((child? name below).getD (.node none []))
      .node kind? (setChild name next below)

def kindAt? : List (List Char) → Frame → Option Kind
  | [], .node kind? _ => kind?
  | name :: rest, .node _ below => (child? name below).bind (kindAt? rest)

def ofPaths (paths : List (List Char × Kind)) : Frame :=
  paths.foldl (fun frame path => frame.insert path.2 (Text.pieces '.' path.1)) (.node none [])

def keyChars : List Char := ['$', 'v', 'a', 'l', 'u', 'e']

def value (text : String) : Kind → Document
  | .number => .number (.integer 1)
  | .text => .text text

mutual

def fill (text : String) : Frame → Document
  | .node kind? below =>
      .object ((kind?.map fun kind => (valueKey, value text kind)).toList ++ fillIn text below)

def fillIn (text : String) : List (List Char × Frame) → List (String × Document)
  | [] => []
  | (name, frame) :: rest => (String.ofList name, fill text frame) :: fillIn text rest

end

mutual

/-- No name stands twice or for a value, and the tree is no deeper than the bound. -/
def sound : Nat → Frame → Bool
  | 0, .node _ _ => false
  | depth + 1, .node _ below => decide (keyChars :: below.map (·.1)).Nodup && soundIn depth below

def soundIn : Nat → List (List Char × Frame) → Bool
  | _, [] => true
  | depth, (_, frame) :: rest => sound depth frame && soundIn depth rest

end

variable {text : String} {frame : Frame} {below : List (List Char × Frame)} {depth : Nat}
  {path : List (List Char)} {kind : Kind}

theorem valueKey_spelled : valueKey = String.ofList keyChars := rfl

theorem isSection_value (text : String) (kind : Kind) :
    Toml.isSection (value text kind) = false := by
  cases kind <;> rfl

theorem fillIn_eq (text : String) (below : List (List Char × Frame)) :
    fillIn text below = below.map fun child => (String.ofList child.1, child.2.fill text) := by
  induction below with
  | nil => rfl
  | cons child rest ih => rw [fillIn, ih, List.map_cons]

theorem soundIn_iff : soundIn depth below = true ↔ ∀ child ∈ below, child.2.sound depth = true := by
  induction below with
  | nil => simp [soundIn]
  | cons child rest ih => simp [soundIn, ih]

theorem value?_fillIn (name : List Char) (below : List (List Char × Frame)) :
    Entries.value? (String.ofList name) (fillIn text below) = (child? name below).map (fill text) := by
  induction below with
  | nil => rfl
  | cons child rest ih =>
      obtain ⟨other, frame⟩ := child
      by_cases same : other = name <;> simp [fillIn, Entries.value?, child?, ih, same, String.ofList_inj]

theorem at?_fill (found : frame.kindAt? path = some kind) (free : keyChars ∉ path) :
    (frame.fill text).at? (path.map String.ofList ++ [valueKey]) = some (value text kind) := by
  induction path generalizing frame with
  | nil =>
      obtain ⟨kind?, below⟩ := frame
      cases found
      simp [fill, Document.at?_object, Entries.value?, Document.at?]
  | cons name rest ih =>
      obtain ⟨kind?, below⟩ := frame
      obtain ⟨next, here, found⟩ := Option.bind_eq_some_iff.mp found
      obtain ⟨other, free⟩ := not_or.mp (mt List.mem_cons.mpr free)
      have skipped : Entries.value? (String.ofList name)
          (kind?.map fun kind => (valueKey, value text kind)).toList = none := by
        cases kind? with
        | none => rfl
        | some kind => simp [Entries.value?, valueKey_spelled, String.ofList_inj, other]
      rw [List.map_cons, List.cons_append, fill, Document.at?_object, Entries.value?_append, skipped,
        Option.none_or, value?_fillIn, here]
      exact ih found free

theorem names_fill_nodup (kind? : Option Kind)
    (distinct : (keyChars :: below.map (·.1)).Nodup) :
    (Entries.names ((kind?.map fun kind => (valueKey, value text kind)).toList ++
      fillIn text below)).Nodup := by
  have children : Entries.names (fillIn text below) = (below.map (·.1)).map String.ofList := by
    simp [fillIn_eq, Entries.names]
  have all : (valueKey :: Entries.names (fillIn text below)).Nodup := by
    rw [children, valueKey_spelled, ← List.map_cons]
    exact List.Nodup.map (fun _ _ same => String.ofList_inj.mp same) distinct
  cases kind? with
  | none => exact (List.nodup_cons.mp all).2
  | some kind => exact all

theorem writable_fill (sound : frame.sound depth = true) : (frame.fill text).Writable depth := by
  induction depth generalizing frame with
  | zero => cases frame; cases sound
  | succ depth ih =>
      obtain ⟨kind?, below⟩ := frame
      obtain ⟨distinct, each⟩ := Bool.and_eq_true_iff.mp sound
      rw [fill]
      apply Document.Writable.object (names_fill_nodup kind? (of_decide_eq_true distinct))
      rw [List.forall_mem_append, fillIn_eq, List.forall_mem_map]
      constructor
      · intro entry member
        cases kind? with
        | none => cases member
        | some kind =>
            cases List.mem_singleton.mp member
            cases kind with
            | text => exact .text text
            | number => exact .number ⟨by decide, by decide⟩
      · exact fun child member => ih (soundIn_iff.mp each child member)

theorem isSection_fill (text : String) (frame : Frame) : Toml.isSection (frame.fill text) = true := by
  cases frame
  rfl

theorem arrange_fill (sound : frame.sound depth = true) :
    Toml.arrange (frame.fill text) = frame.fill text := by
  induction depth generalizing frame with
  | zero => cases frame; cases sound
  | succ depth ih =>
      obtain ⟨kind?, below⟩ := frame
      obtain ⟨-, each⟩ := Bool.and_eq_true_iff.mp sound
      have others : ∀ entry ∈ fillIn text below, Toml.isSection entry.2 = true := by
        rw [fillIn_eq, List.forall_mem_map]
        exact fun child _ => isSection_fill text child.2
      have arranged : (fillIn text below).map (fun entry => (entry.1, Toml.arrange entry.2)) =
          fillIn text below := by
        rw [fillIn_eq, List.map_map]
        apply List.map_congr_left
        intro child member
        exact Prod.ext rfl (ih (soundIn_iff.mp each child member))
      have none : (fillIn text below).filter (fun entry => !Toml.isSection entry.2) = [] := by
        rw [List.filter_eq_nil_iff]
        intro entry member
        simp [others entry member]
      have all : (fillIn text below).filter (fun entry => Toml.isSection entry.2) = fillIn text below :=
        List.filter_eq_self.mpr others
      rw [fill, Toml.arrange, Toml.plainEntries, Toml.arrangeSections_eq, List.filter_append,
        List.filter_append, none, all, List.map_append, arranged]
      cases kind? <;> simp [isSection_value]

theorem numbersFit_fill (sound : frame.sound depth = true) :
    Tree.numbersFit (frame.fill text) = true := by
  induction depth generalizing frame with
  | zero => cases frame; cases sound
  | succ depth ih =>
      obtain ⟨kind?, below⟩ := frame
      obtain ⟨-, each⟩ := Bool.and_eq_true_iff.mp sound
      rw [fill, Tree.numbersFit, Tree.numbersFitIn_iff, List.forall_mem_append, fillIn_eq,
        List.forall_mem_map]
      constructor
      · intro entry member
        cases kind? with
        | none => cases member
        | some kind =>
            cases List.mem_singleton.mp member
            cases kind with
            | text => rfl
            | number => exact decide_eq_true (by decide : (Number.integer 1).Fits)
      · exact fun child member => ih (soundIn_iff.mp each child member)

def scalar (text : String) : Kind → Scalar
  | .number => .number (Number.integer 1).toBinary64
  | .text => .text text

theorem kind_scalar (text : String) (kind : Kind) : (scalar text kind).kind = kind := by
  cases kind <;> rfl

theorem ofDocument_value (path : String) (plain : isAlias text = false) (kind : Kind) :
    Declared.ofDocument path (value text kind) = .ok (.concrete (scalar text kind)) := by
  cases kind with
  | number => rfl
  | text => rw [value, Declared.ofDocument, (Path.ofAlias?_eq_none_iff text).mpr plain, scalar]

end Frame

def Frame.tree (text : String) (frame : Frame) : Tree := ⟨(frame.fill text).entries?.getD []⟩

theorem Frame.toDocument_tree (text : String) (frame : Frame) :
    (frame.tree text).toDocument = frame.fill text := by
  cases frame
  rfl

theorem Tree.ofDocument_toDocument (tree : Tree) : Tree.ofDocument tree.toDocument = .ok tree := rfl

theorem Tree.resolveAt_of_concrete {tree : Tree} {text : String} {value : Document} {scalar : Scalar}
    (declares : tree.value? (.ofText text) = some value)
    (reads : Declared.ofDocument (Path.ofText text).text value = .ok (.concrete scalar)) :
    tree.resolveAt text = .ok scalar := by
  have found : tree.declared (.ofText text) text = .ok value := declared_eq_ok.mpr declares
  change (tree.follow [] (.ofText text) text).1 = _
  rw [Tree.follow, dif_neg List.not_mem_nil]
  split
  · rename_i failed
    rw [found] at failed
    cases failed
  · rename_i held declared
    rw [found, Except.ok.injEq] at declared
    rw [← declared, reads]

end DesignTokens.Token

namespace DesignTokens.Theme

open Token

def asking (fields : List Field) : List (List Char × Kind) :=
  fields.filterMap fun field =>
    match field.source with
    | .token path kind => some (path.toList, kind)
    | .derived _ => none

inductive Spelled : List Field → List (List Char × Kind) → Prop
  | nil : Spelled [] []
  | token {fields : List Field} {paths : List (List Char × Kind)} {name : String}
      {chars : List Char} {kind : Kind} (rest : Spelled fields paths) :
      Spelled (⟨name, .token (String.ofList chars) kind⟩ :: fields) ((chars, kind) :: paths)
  | derived {fields : List Field} {paths : List (List Char × Kind)} {name : String} {rule : Rule}
      (rest : Spelled fields paths) : Spelled (⟨name, .derived rule⟩ :: fields) paths
  | append {fields others : List Field} {paths more : List (List Char × Kind)}
      (first : Spelled fields paths) (second : Spelled others more) :
      Spelled (fields ++ others) (paths ++ more)

theorem Spelled.asking_eq {fields : List Field} {paths : List (List Char × Kind)}
    (spelled : Spelled fields paths) : asking fields = paths := by
  induction spelled with
  | nil => rfl
  | token rest ih => rw [← ih]; simp [asking]
  | derived rest ih => exact ih
  | append first second ih ih' => rw [asking, List.filterMap_append, ← asking, ← asking, ih, ih']

def sample : Frame := .ofPaths (asking fields)

def Frame.serves (frame : Frame) (paths : List (List Char × Kind)) : Bool :=
  paths.all fun path =>
    let names := Text.pieces '.' path.1
    frame.kindAt? names = some path.2 && !names.contains Frame.keyChars

theorem sample_check : Frame.serves sample (asking fields) = true ∧ sample.sound 8 = true := by
  have spelled : ∃ paths, Spelled fields paths ∧
      (Frame.serves (.ofPaths paths) paths && (Frame.ofPaths paths).sound 8) = true := by
    apply Exists.intro
    apply And.intro
    · repeat first
        | apply Spelled.nil
        | apply Spelled.token
        | apply Spelled.derived
        | apply Spelled.append
    · decide +kernel
  obtain ⟨paths, spelled, checked⟩ := spelled
  rw [sample, spelled.asking_eq]
  exact Bool.and_eq_true_iff.mp checked

variable {text name path : String} {kind : Kind} {field : Field}

theorem mem_asking (member : field ∈ fields) (source : field.source = .token path kind) :
    (path.toList, kind) ∈ asking fields :=
  List.mem_filterMap.mpr ⟨field, member, by rw [source]⟩

theorem resolveAt_sample (plain : isAlias text = false) (asked : (path.toList, kind) ∈ asking fields) :
    (sample.tree text).resolveAt path = .ok (Frame.scalar text kind) := by
  have served := List.all_eq_true.mp sample_check.1 _ asked
  simp only [Bool.and_eq_true, decide_eq_true_eq, Bool.not_eq_true', List.contains_eq_mem,
    decide_eq_false_iff_not] at served
  have declares : (sample.tree text).value? (.ofText path) = some (Frame.value text kind) := by
    rw [Tree.value?, Frame.toDocument_tree]
    exact Frame.at?_fill served.1 served.2
  exact Tree.resolveAt_of_concrete declares (Frame.ofDocument_value _ plain kind)

theorem numbersFit_sample (text : String) : (sample.tree text).NumbersFit := by
  apply Tree.numbersFit_of_check
  rw [Frame.toDocument_tree]
  exact Frame.numbersFit_fill sample_check.2

theorem meets_sample (plain : isAlias text = false) :
    ∀ field ∈ fields, Meets (sample.tree text) field := by
  intro field member path kind source
  exact ⟨_, resolveAt_sample plain (mem_asking member source), Frame.kind_scalar text kind⟩

theorem plainTokens_sample (plain : isAlias text = false) : PlainTokens (sample.tree text) := by
  intro field member path kind s source reads
  rw [resolveAt_sample plain (mem_asking member source), Except.ok.injEq] at reads
  cases kind with
  | number => cases reads
  | text =>
      cases reads
      exact plain

/-- Whatever text the tokens hold, if it is no alias, there is a theme of each name that is none. -/
theorem assemble_sample (plain : isAlias text = false) (named : isAlias name = false) :
    ∃ theme, assemble (sample.tree text) name = .ok theme ∧
      Assembled (sample.tree text) name theme :=
  assemble_of_plain (numbersFit_sample text) (meets_sample plain) (plainTokens_sample plain) named

theorem part?_of_sample {theme : Theme} (plain : isAlias text = false)
    (assembled : Assembled (sample.tree text) name theme) (member : field ∈ fields)
    (source : field.source = .token path .text) : theme.part? field.name = some (.text text) := by
  obtain ⟨scalar, part, reads, here, shows⟩ := assembled.token field member path .text source
  rw [resolveAt_sample plain (mem_asking member source), Except.ok.injEq] at reads
  subst reads
  cases part with
  | text s => exact here.trans (congrArg (some ∘ Part.text) shows)
  | _ => cases shows

/--
A theme whose texts are all `sun`, no theme of the same tokens under a name that is an alias, and
without tokens the failure of the first field.
-/
theorem assemble_sample_sun :
    (sample.tree "sun").NumbersFit ∧
    (∃ theme, assemble (sample.tree "sun") "Day" = .ok theme ∧ theme.name = "Day" ∧
      theme.root.Plain ∧ ∀ field ∈ fields, ∀ path, field.source = .token path .text →
        theme.part? field.name = some (.text "sun")) ∧
    (¬ ∃ theme, assemble (sample.tree "sun") "\x7bDay\x7d" = .ok theme) ∧
    ∃ e, assemble ⟨[]⟩ "Day" = .error e ∧ FirstFailure ⟨[]⟩ fields e := by
  have plain : isAlias "sun" = false := by decide
  have fit := numbersFit_sample "sun"
  obtain ⟨succeeds, holds, -⟩ := assemble_spec (sample.tree "sun") "Day" fit
  refine ⟨fit, ?_, ?_, ?_⟩
  · obtain ⟨theme, done⟩ :=
      succeeds.mpr ⟨meets_sample plain, plainTokens_sample plain, by decide⟩
    have assembled := holds theme done
    exact ⟨theme, done, assembled.name, assembled.plain,
      fun field member path source => part?_of_sample plain assembled member source⟩
  · intro assembled
    have conditions := (assemble_spec (sample.tree "sun") "\x7bDay\x7d" fit).1.mp assembled
    exact absurd conditions.2.2 (by decide)
  · have unmet : ¬ ∀ field ∈ fields, Meets ⟨[]⟩ field := by
      intro met
      obtain ⟨scalar, reads, -⟩ := met ⟨"semantic.color.surface", _⟩
        (List.mem_append_left _ (List.mem_append_left _ (List.mem_append_left _ List.mem_cons_self)))
        _ _ rfl
      have none : Tree.resolveAt ⟨[]⟩ "Semantic.Colour.Surface" = .error
        (.pathNotFound "Semantic.Colour.Surface" "Semantic") := by cbv
      rw [none] at reads
      cases reads
    obtain ⟨succeeds, -, fails⟩ := assemble_spec ⟨[]⟩ "Day" (Tree.numbersFit_of_check rfl)
    cases made : assemble ⟨[]⟩ "Day" with
    | ok theme => exact absurd (succeeds.mp ⟨theme, made⟩).1 unmet
    | error e =>
        rcases fails e made with first | ⟨met, -⟩
        · exact ⟨e, rfl, first⟩
        · exact absurd met unmet

end DesignTokens.Theme
