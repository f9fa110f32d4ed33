import SchemaGraph.Node.Json
import SchemaGraph.Proofs.JsonFields
import SchemaGraph.Proofs.Sites

/-!
# Schemas are written and read back

A schema is read back from its written form exactly if its nodes stand at most 63 levels deep and
their places are counted in 64 bits. The reader counts arrays and objects, of which every level
takes two, and 63 levels are what fits into 127. No other schemas can be read from any text at all,
however it is spaced, ordered, escaped or abbreviated, so what has been read once can be written and
read again.
-/

namespace SchemaGraph

open Node

/-- The place is counted in 64 bits. -/
structure Position.InRange (position : Position) : Prop where
  line : ∀ number ∈ position.line, number < Position.limit
  column : ∀ number ∈ position.column, number < Position.limit

instance (position : Position) : Decidable position.InRange :=
  decidable_of_iff (_ ∧ _) ⟨fun ⟨line, column⟩ => ⟨line, column⟩, fun range =>
    ⟨range.line, range.column⟩⟩

/-- A place that is read is counted in 64 bits. -/
theorem Position.inRange_of_optional? {line column : Option Json} {position : Position}
    (isLine : Json.optional? (Json.below? limit) line = some position.line)
    (isColumn : Json.optional? (Json.below? limit) column = some position.column) :
    position.InRange where
  line := by
    intro number isNumber
    rw [Option.mem_def.mp isNumber] at isLine
    obtain ⟨_, read⟩ := Json.read_of_optional? isLine
    exact Json.lt_of_below? read
  column := by
    intro number isNumber
    rw [Option.mem_def.mp isNumber] at isColumn
    obtain ⟨_, read⟩ := Json.read_of_optional? isColumn
    exact Json.lt_of_below? read

/-- The nodes are nested at most so many levels deep, of which they take the first themselves. -/
def NestedWithin : Nat → List Node → Prop
  | 0, nodes => nodes = []
  | levels + 1, nodes => ∀ node ∈ nodes, NestedWithin levels node.children

instance decidableNestedWithin : (levels : Nat) → (nodes : List Node) →
    Decidable (NestedWithin levels nodes)
  | 0, nodes => inferInstanceAs (Decidable (nodes = []))
  | levels + 1, nodes =>
    have := fun node : Node => decidableNestedWithin levels node.children
    inferInstanceAs (Decidable (∀ node ∈ nodes, NestedWithin levels node.children))

/-- The schema can be written and read: its nodes are nested no deeper than can be read, and their
places are counted in 64 bits. -/
structure Schema.Readable (schema : Schema) : Prop where
  nested : NestedWithin 63 schema
  positions : ∀ node ∈ subnodesIn schema, node.position.InRange

instance (schema : Schema) : Decidable schema.Readable :=
  decidable_of_iff (_ ∧ _) ⟨fun ⟨nested, positions⟩ => ⟨nested, positions⟩, fun readable =>
    ⟨readable.nested, readable.positions⟩⟩

namespace Node

/-- What holds throughout a list of trees holds at each root and below it. -/
theorem forall_subnodesIn {P : Node → Prop} {nodes : List Node} :
    (∀ other ∈ subnodesIn nodes, P other) ↔
      ∀ node ∈ nodes, P node ∧ ∀ other ∈ subnodesIn node.children, P other := by
  induction nodes with
  | nil => simp [subnodesIn]
  | cons node rest ih => rw [forall_subnodesIn_cons, ih, List.forall_mem_cons, and_assoc]

/-! ### The written form -/

/-- The fields of a node, of which some may be left out. -/
def writtenFields (node : Node) : List (String × Option Json) :=
  [("kind", some (.string node.kind.word)), ("text", some (.string node.text)),
    ("children", if node.children.isEmpty then none else some (.array (listToJson node.children))),
    ("line", node.position.line.map .natural), ("column", node.position.column.map .natural)]

/-- A node is written field by field, and what it need not say is left out. -/
theorem toJson_eq (node : Node) : node.toJson = .object (Json.given node.writtenFields) := by
  obtain ⟨kind, text, children, line, column⟩ := node
  cases children <;> cases line <;> cases column <;> rfl

/-- Lists of nodes are written node by node. -/
theorem listToJson_eq_map (nodes : List Node) : listToJson nodes = nodes.map toJson := by
  induction nodes with
  | nil => rfl
  | cons node rest ih => rw [listToJson, ih, List.map_cons]

/-- Written nodes are plain. -/
theorem plain_listToJson (nodes : List Node) : ∀ json ∈ listToJson nodes, json.Plain := by
  induction nodes using forest_induction with
  | nil => simp [listToJson]
  | cons node rest children _ ih =>
    refine List.forall_mem_cons.mpr ⟨?_, ih⟩
    rw [toJson_eq]
    refine Json.plain_given ?_
    simp only [writtenFields, List.forall_mem_cons, Option.mem_some_iff, forall_eq']
    refine ⟨.string _, .string _, ?_, .ofMap .natural _, .ofMap .natural _, by simp⟩
    split
    · simp
    · simpa using Json.Plain.array children

/-- The kind of a node is read back from its word. -/
theorem ofWord?_word (kind : NodeKind) : NodeKind.ofWord? kind.word = some kind := by
  cases kind <;> rfl

/-- A node is read back if its kind and its children are. -/
theorem assemble?_toJson {kind? : Json → Option NodeKind} {children? : Json → Option (List Node)}
    {node : Node} (inRange : node.position.InRange)
    (kind : kind? (.string node.kind.word) = some node.kind)
    (children : node.children ≠ [] →
      children? (.array (listToJson node.children)) = some node.children) :
    assemble? kind? children? node.toJson = some node := by
  have fields := Json.record?_given node.writtenFields fieldNames 1 rfl (by decide)
  have below : Json.defaulted? [] children?
      (if node.children.isEmpty then none else some (.array (listToJson node.children))) =
        some node.children := by
    cases given : node.children with
    | nil => rfl
    | cons first rest => simpa [given, Json.defaulted?] using children (by simp [given])
  rw [assemble?, toJson_eq, fields]
  simp only [writtenFields, List.map_cons, List.map_nil, Json.required?, kind, below,
    Json.optional?_natural inRange.line, Json.optional?_natural inRange.column]
  cases node
  rfl

/-- The levels of nodes that there is room for: each takes an object, and an array around those
below it. -/
def levels (room : Nat) : Nat :=
  (room + 1) / 2

/-- One level of nodes more takes two more containers, an object and the array around it. -/
@[simp] theorem levels_add_two (room : Nat) : levels (room + 2) = levels room + 1 := by
  unfold levels
  omega

/-- The room that a schema leaves for its nodes is that for 63 levels. -/
theorem levels_maxNested : levels (Schema.maxNested - 2) = 63 :=
  rfl

/-- Nodes are read back if there is room for them. -/
theorem each?_listToJson {room : Nat} {nodes : List Node}
    (nested : NestedWithin (levels room) nodes)
    (inRange : ∀ node ∈ subnodesIn nodes, node.position.InRange) :
    Json.each? (ofJson? room) (listToJson nodes) = some nodes := by
  induction room using Nat.twoStepInduction generalizing nodes with
  | zero =>
    rw [show nodes = [] from nested]
    rfl
  | one =>
    rw [listToJson_eq_map]
    refine Json.each?_map fun node listed => ?_
    have leaf : node.children = [] := nested node listed
    exact assemble?_toJson (forall_subnodesIn.mp inRange node listed).1 (ofWord?_word node.kind)
      fun inner => absurd leaf inner
  | more room ih _ =>
    rw [levels_add_two] at nested
    rw [listToJson_eq_map]
    refine Json.each?_map fun node listed => ?_
    obtain ⟨position, below⟩ := forall_subnodesIn.mp inRange node listed
    exact assemble?_toJson position (ofWord?_word node.kind) fun _ => ih (nested node listed) below

/-! ### What can be read -/

/-- A node that is read has a place in range, and its children are read as such. -/
theorem of_assemble? {kind? : Json → Option NodeKind} {children? : Json → Option (List Node)}
    {json : Json} {node : Node} (success : assemble? kind? children? json = some node) :
    node.position.InRange ∧
      (node.children = [] ∨ ∃ inner, children? inner = some node.children) := by
  rw [assemble?] at success
  split at success
  · next kind text children line column _ =>
    simp only [Option.bind_eq_bind, Option.bind_eq_some_iff, Option.some.injEq] at success
    obtain ⟨_, _, _, _, below, isBelow, _, isLine, _, isColumn, rfl⟩ := success
    refine ⟨Position.inRange_of_optional? isLine isColumn, ?_⟩
    cases children with
    | none => exact .inl (Option.some.inj isBelow).symm
    | some inner => exact .inr ⟨inner, isBelow⟩
  · simp at success

/-- Nodes that are read are nested no deeper than there is room for. -/
theorem nested_of_ofJson? {room : Nat} {nodes : List Node}
    (read : ∀ node ∈ nodes, ∃ json, ofJson? room json = some node) :
    NestedWithin (levels room) nodes ∧ ∀ node ∈ subnodesIn nodes, node.position.InRange := by
  rw [forall_subnodesIn]
  induction room using Nat.twoStepInduction generalizing nodes with
  | zero =>
    cases nodes with
    | nil => exact ⟨rfl, by simp⟩
    | cons node rest =>
      obtain ⟨_, success⟩ := read node List.mem_cons_self
      simp [ofJson?] at success
  | one =>
    -- The only level that there is room for has no children.
    have leaves : ∀ node ∈ nodes, node.children = [] ∧ node.position.InRange := by
      intro node listed
      obtain ⟨json, success⟩ := read node listed
      obtain ⟨position, leaf | ⟨_, impossible⟩⟩ := of_assemble? success
      · exact ⟨leaf, position⟩
      · simp at impossible
    refine ⟨fun node listed => (leaves node listed).1, fun node listed => ?_⟩
    obtain ⟨leaf, position⟩ := leaves node listed
    exact ⟨position, by simp [leaf, subnodesIn]⟩
  | more room ih _ =>
    rw [levels_add_two, NestedWithin, ← forall₂_and]
    intro node listed
    obtain ⟨json, success⟩ := read node listed
    obtain ⟨position, inner⟩ := of_assemble? success
    have areRead : ∀ child ∈ node.children, ∃ json, ofJson? room json = some child := by
      intro child isChild
      rcases inner with leaf | ⟨_, areRead⟩
      · simp [leaf] at isChild
      · exact Json.exists_of_mem_items? areRead isChild
    obtain ⟨nested, below⟩ := ih areRead
    exact ⟨nested, position, forall_subnodesIn.mpr below⟩

end Node

namespace Schema

/-- A written schema is plain. -/
theorem plain_toJson (schema : Schema) : schema.toJson.Plain := by
  refine .object ?_
  simpa using Json.Plain.array (plain_listToJson schema)

/-- A readable schema is read back. -/
theorem ofJson?_toJson {schema : Schema} (readable : schema.Readable) :
    ofJson? schema.toJson = some schema := by
  have nodes := each?_listToJson (levels_maxNested ▸ readable.nested) readable.positions
  simpa [toJson, ofJson?, Json.record?, Json.fields?, Json.field?, Json.required?,
    Json.items?] using nodes

/-- Whatever schema is read from a text is readable. -/
theorem readable_of_ofText? {schema : Schema} {text : String}
    (success : ofText? text = some schema) : schema.Readable := by
  rw [ofText?] at success
  split at success
  · next json _ =>
    rw [ofJson?] at success
    split at success
    · next nodes _ =>
      cases nodes with
      | none => simp [Json.required?] at success
      | some items =>
        obtain ⟨nested, positions⟩ := nested_of_ofJson? fun _ listed =>
          Json.exists_of_mem_items? success listed
        exact ⟨levels_maxNested ▸ nested, positions⟩
    · simp at success
  · simp at success

end Schema

/-- A schema is read back from its compact text exactly if its nodes are nested at most 63 levels
deep and their places are counted in 64 bits. No text at all can be read as any other schema, so
what is read once is read again from its own compact text. -/
theorem schema_reads_back (schema : Schema) :
    (Schema.ofText? schema.toJson.compact = some schema ↔ schema.Readable) ∧
      ((∃ text, Schema.ofText? text = some schema) ↔ schema.Readable) := by
  have back (readable : schema.Readable) :
      Schema.ofText? schema.toJson.compact = some schema := by
    rw [Schema.ofText?, schema.plain_toJson.ofText?_compact]
    exact Schema.ofJson?_toJson readable
  have only {text : String} (success : Schema.ofText? text = some schema) : schema.Readable :=
    Schema.readable_of_ofText? success
  exact ⟨⟨only, back⟩, fun ⟨_, success⟩ => only success, fun readable => ⟨_, back readable⟩⟩

/-- Nodes that stand inside one another, so many levels deep, on the last line that can be
counted. -/
def nestedNodes : Nat → List Node
  | 0 => []
  | levels + 1 =>
    [⟨.property, "\"level\"\n\u007f", nestedNodes levels, ⟨some 0xFFFFFFFFFFFFFFFF, none⟩⟩]

/-- The deepest schema that can be read, and one level more, which cannot. -/
theorem schema_reads_back_nestedNodes :
    Schema.ofText? (Schema.toJson (nestedNodes 63)).compact = some (nestedNodes 63) ∧
      ∀ text, Schema.ofText? text ≠ some (nestedNodes 64) := by
  have deepest : Schema.Readable (nestedNodes 63) := by decide
  have deeper : ¬ Schema.Readable (nestedNodes 64) := by decide
  refine ⟨(schema_reads_back _).1.mpr deepest, fun text success => ?_⟩
  exact deeper ((schema_reads_back _).2.mp ⟨text, success⟩)

end SchemaGraph
