import DesignTokens.Proofs.Theme.Arranged
import DesignTokens.Proofs.Theme.Leaves

/-!
The table of fields and the schema agree: read side by side, the rows of the table are the leaves of
the schema behind the name of the theme, each at its place and with its kind.
-/

namespace DesignTokens.Theme

open Token

namespace Field

def place (field : Field) : List String := Text.split '.' field.name

def ownKind? (field : Field) : Option Kind :=
  match field.source with
  | .token _ kind => some kind
  | .derived (.constant _) => some .number
  | .derived (.copy _) => none

variable {field : Field} {top next : String} {rest : List String}

theorem name_toList (here : field.place = top :: next :: rest) :
    ∃ more, field.name.toList = top.toList ++ '.' :: more := by
  refine ⟨Text.glue '.' ((next :: rest).map String.toList), ?_⟩
  rw [← Text.join_split '.' field.name]
  simp only [place] at here
  simp [Text.join, here, Text.glue]

theorem tier_of_semantic (here : field.place = "semantic" :: next :: rest) :
    field.tier = .semantic := by
  rcases name_toList here with ⟨more, spelled⟩
  have start : "semantic.".toList = "semantic".toList ++ ['.'] := by decide
  have starts : "semantic.".toList <+: field.name.toList :=
    ⟨more, by rw [start, spelled, List.append_assoc]; rfl⟩
  rw [tier, if_pos (List.isPrefixOf_iff_prefix.mpr starts)]

theorem tier_of_component (here : field.place = "component" :: next :: rest) :
    field.tier = .component := by
  rcases name_toList here with ⟨more, spelled⟩
  obtain ⟨cs, first⟩ : ∃ cs, "component".toList = 'c' :: cs := ⟨"omponent".toList, by decide⟩
  obtain ⟨ss, first'⟩ : ∃ ss, "semantic.".toList = 's' :: ss := ⟨"emantic.".toList, by decide⟩
  have starts : ¬ "semantic.".toList <+: field.name.toList := by
    rw [spelled, first, first', List.cons_append, List.cons_prefix_cons]
    exact fun both => absurd both.1 (by decide)
  rw [tier, if_neg (fun found => starts (List.isPrefixOf_iff_prefix.mp found))]

end Field

/-- The kind of value that a field gets; a copy gets that of the semantic field it copies. -/
def Table.kind? (field : Field) : Option Kind :=
  match field.source with
  | .derived (.copy other) =>
      (Table.semantic.find? fun source => source.name = other).bind Field.ownKind?
  | _ => field.ownKind?

/-- A name is spelled out and cut by hand, since comparing whole texts is slow to evaluate. -/
theorem places_cons {field : Field} {fields : List Field} {chars : List Char}
    {place : List String} {places : List (List String)} (spelled : field.name = String.ofList chars)
    (cut : (Text.pieces '.' chars).map String.ofList = place)
    (behind : fields.map Field.place = places) :
    (field :: fields).map Field.place = place :: places := by
  rw [List.map_cons, behind, Field.place, spelled, Text.split, String.toList_ofList, cut]

theorem semantic_places : Table.semantic.map Field.place =
    Semantic.semantic.leaves.map fun leaf => "semantic" :: leaf.1 := by
  simp only [Semantic.semantic, Semantic.color, Semantic.fontFamily, Semantic.fontSize,
    Semantic.fontWeight, Semantic.lineHeight, Semantic.letterSpacing, Semantic.paragraphSpacing,
    Semantic.paragraphIndent, Semantic.borderRadius, Semantic.spacing, Semantic.borderWidth,
    Semantic.elevation, Semantic.size, Semantic.opacity, Schema.leaves, Schema.leavesIn, List.map,
    List.append_nil, List.cons_append, List.nil_append]
  repeat refine places_cons rfl rfl ?_
  rfl

set_option maxRecDepth 2000 in
theorem component_places : Table.component.map Field.place =
    Component.component.leaves.map fun leaf => "component" :: leaf.1 := by
  simp only [Component.component, Component.button, Component.buttonVariant,
    Component.buttonOutline, Component.buttonState, Component.card, Component.textField,
    Component.checkbox, Component.fab, Component.autocomplete, Component.select, Component.switch,
    Component.badge, Component.chip, Component.divider, Component.icon, Component.table,
    Component.alert, Component.backdrop, Component.skeleton, Component.snackbar, Component.dialog,
    Component.appBar, Component.link, Component.speedDial, Schema.leaves, Schema.leavesIn, List.map,
    List.append_nil, List.cons_append, List.nil_append]
  repeat refine places_cons rfl rfl ?_
  rfl

theorem table_kinds :
    Table.rows.map Table.kind? = schema.leaves.tail.map fun leaf => some leaf.2 := by
  decide +kernel

theorem schema_wellFormed : schema.wellFormed = true := by decide +kernel

theorem schema_leaves : schema.leaves = (["name"], .text) ::
    (Semantic.semantic.leaves.map (fun leaf => ("semantic" :: leaf.1, leaf.2)) ++
      Component.component.leaves.map fun leaf => ("component" :: leaf.1, leaf.2)) := by
  simp [schema, Schema.leaves, Schema.leavesIn]

theorem rows_places : Table.rows.map Field.place = schema.leaves.tail.map (·.1) := by
  rw [Table.rows, List.map_append, semantic_places, component_places, schema_leaves]
  simp [Function.comp_def]

/-- The rows of the table are the leaves of the schema but the name. -/
theorem rows_eq_leaves : Table.rows.map (fun field => (field.place, Table.kind? field)) =
    schema.leaves.tail.map fun leaf => (leaf.1, some leaf.2) := by
  calc
    Table.rows.map (fun field => (field.place, Table.kind? field)) =
        (Table.rows.map Field.place).zip (Table.rows.map Table.kind?) := by
      rw [List.zip_map']
    _ = schema.leaves.tail.map fun leaf => (leaf.1, some leaf.2) := by
      rw [rows_places, table_kinds, List.zip_map']

theorem leaf_of_field {field : Field} (member : field ∈ fields) :
    ∃ kind, Table.kind? field = some kind ∧ schema.at? field.place = some (.ofKind kind) := by
  have row : (field.place, Table.kind? field) ∈
      schema.leaves.tail.map fun leaf => (leaf.1, some leaf.2) := by
    rw [← rows_eq_leaves]
    exact List.mem_map.mpr ⟨field, member, rfl⟩
  rcases List.mem_map.mp row with ⟨⟨path, kind⟩, leaf, same⟩
  injection same with places kinds
  subst places
  exact ⟨kind, kinds.symm, (Schema.mem_leaves_iff schema_wellFormed).mp (List.mem_of_mem_tail leaf)⟩

theorem field_of_leaf {path : List String} {kind : Kind}
    (leaf : schema.at? path = some (.ofKind kind)) :
    (path = ["name"] ∧ kind = .text) ∨ ∃ field ∈ fields, field.place = path := by
  have listed := (Schema.mem_leaves_iff schema_wellFormed).mpr leaf
  rw [schema_leaves] at listed
  rcases List.mem_cons.mp listed with same | later
  · injection same with paths kinds
    exact .inl ⟨paths, kinds⟩
  · right
    have row : (path, some kind) ∈
        Table.rows.map fun field => (field.place, Table.kind? field) := by
      rw [rows_eq_leaves, schema_leaves, List.tail_cons]
      exact List.mem_map.mpr ⟨_, later, rfl⟩
    rcases List.mem_map.mp row with ⟨field, member, same⟩
    injection same with places
    exact ⟨field, member, places⟩

theorem place_of_row {rows : List Field} {top title : String} {inner : List (String × Schema)}
    (places : rows.map Field.place =
      (Schema.record title inner).leaves.map fun leaf => top :: leaf.1)
    {field : Field} (member : field ∈ rows) : ∃ next rest, field.place = top :: next :: rest := by
  have place : field.place ∈ rows.map Field.place := List.mem_map.mpr ⟨field, member, rfl⟩
  rw [places] at place
  rcases List.mem_map.mp place with ⟨leaf, inside, here⟩
  rcases Schema.mem_leavesIn.mp inside with ⟨name, schema, below, -, -, rfl⟩
  exact ⟨name, below.1, here.symm⟩

theorem semantic_tier {field : Field} (member : field ∈ Table.semantic) :
    field.tier = .semantic := by
  rcases place_of_row semantic_places member with ⟨next, rest, here⟩
  exact Field.tier_of_semantic here

theorem component_tier {field : Field} (member : field ∈ Table.component) :
    field.tier = .component := by
  rcases place_of_row component_places member with ⟨next, rest, here⟩
  exact Field.tier_of_component here

theorem semantic_ownKind? : ∀ field ∈ Table.semantic, field.ownKind?.isSome := by decide

theorem find_copied {field : Field} {other : String} {kind : Kind}
    (given : field.source = .derived (.copy other)) (kinds : Table.kind? field = some kind) :
    ∃ source ∈ Table.semantic, source.name = other ∧ source.ownKind? = some kind := by
  rw [Table.kind?, given] at kinds
  rcases Option.bind_eq_some_iff.mp kinds with ⟨source, found, own⟩
  exact ⟨source, List.mem_of_find?_eq_some found, by simpa using List.find?_some found, own⟩

theorem names_nodup {fields : List Field} {leaves : List (List String × Kind)}
    (places : fields.map Field.place = leaves.map (·.1)) (distinct : (leaves.map (·.1)).Nodup) :
    (fields.map Field.name).Nodup := by
  rw [← places] at distinct
  exact List.pairwise_map.mpr (List.Pairwise.of_map Field.place
    (fun _ _ apart same => apart (congrArg (Text.split '.') same)) distinct)

theorem fields_arranged : Arranged fields where
  distinct := names_nodup rows_places
    ((Schema.leaves_nodup schema schema_wellFormed).sublist ((List.tail_sublist _).map _))
  semantic := by
    intro field member tier other given
    rcases List.mem_append.mp member with early | late
    · have own := semantic_ownKind? field early
      simp [Field.ownKind?, given] at own
    · rw [component_tier late] at tier
      cases tier
  copied := by
    intro field member other given
    rcases leaf_of_field member with ⟨kind, kinds, -⟩
    rcases find_copied given kinds with ⟨source, early, same, -⟩
    exact ⟨source, List.mem_append_left _ early, same, semantic_tier early⟩

theorem place_ne_name {field : Field} (member : field ∈ fields) : field.place ≠ ["name"] := by
  have distinct := Schema.leaves_nodup schema schema_wellFormed
  rw [schema_leaves, List.map_cons, List.nodup_cons] at distinct
  intro same
  apply distinct.1
  have row : field.place ∈ schema.leaves.tail.map (·.1) := by
    rw [← rows_places]
    exact List.mem_map.mpr ⟨field, member, rfl⟩
  rwa [same, schema_leaves, List.tail_cons] at row

def Field.constantFinite (field : Field) : Bool :=
  match field.source with
  | .derived (.constant x) => x.isFinite
  | _ => true

theorem constants_finite : ∀ field ∈ fields, field.constantFinite = true := by decide +kernel

end DesignTokens.Theme
