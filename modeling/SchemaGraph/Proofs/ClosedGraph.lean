import SchemaGraph.Proofs.CompiledGraph

/-!
# The graph is closed

Whatever the shape of the schema, a compile that succeeds leaves no loose end: every id in the
type of a property is that of a declaration of the right kind, builtin types are registered, the
representation of a property is that of its type, and an identity is one of the properties. So
the types of all properties can be written out again.
-/

namespace SchemaGraph

open Node Registry TypeExpression

/-- At every depth the type refers to what is registered. -/
inductive SchemaType.ClosedIn (registry : Registry) : SchemaType → Prop
  | primitive {id : TypeId} {name : String}
      (registered : registry.declarations[id]? = some (.primitive name)) :
      ClosedIn registry (.primitive name)
  | blob {id : TypeId} {name : String}
      (registered : registry.declarations[id]? = some (.blob name)) : ClosedIn registry .blob
  | list {element : SchemaType} (inner : ClosedIn registry element) :
      ClosedIn registry (.list element)
  | set {element : SchemaType} (inner : ClosedIn registry element) :
      ClosedIn registry (.set element)
  | map {key value : SchemaType} (atKey : ClosedIn registry key)
      (atValue : ClosedIn registry value) : ClosedIn registry (.map key value)
  | record {id : TypeId} {type : RecordType}
      (registered : registry.declarations[id]? = some (.record type)) :
      ClosedIn registry (.record id)
  | enumeration {id : TypeId} {type : EnumType}
      (registered : registry.declarations[id]? = some (.enumeration type)) :
      ClosedIn registry (.enumeration id)

namespace Registry

/-- A type that a name denotes is that of something registered. -/
private theorem closedIn_of_typeNamed {registry : Registry} {scope : Option TypeId}
    {reference : String} {type : SchemaType}
    (named : registry.typeNamed scope reference = .ok type) : type.ClosedIn registry := by
  rw [typeNamed] at named
  split at named
  · rename_i id _
    split at named
    · rename_i found typed
      obtain rfl := Except.ok.inj named
      obtain ⟨declaration, get, rfl⟩ := map_eq_ok_iff.mp typed
      have atId := get_eq_ok_iff.mp get
      cases declaration with
      | primitive name => exact .primitive atId
      | blob name => exact .blob atId
      | record type => exact .record atId
      | enumeration type => exact .enumeration atId
    · simp at named
  · simp at named

/-- A type that an expression stands for refers to what is registered, at every depth. -/
theorem closedIn_of_denotes {registry : Registry} {scope : Option TypeId}
    {expression : TypeExpression} {type : SchemaType}
    (denotes : Denotes (fun reference type => registry.typeNamed scope reference = .ok type)
      expression type) : type.ClosedIn registry := by
  induction denotes with
  | name found => exact closedIn_of_typeNamed found
  | list _ ih => exact .list ih
  | set _ ih => exact .set ih
  | map _ _ keyIh valueIh => exact .map keyIh valueIh

/-- Contents do not matter for what a type refers to. -/
theorem closedIn_of_bare {registry registry' : Registry}
    (same : registry'.bare = registry.bare) {type : SchemaType} (closed : type.ClosedIn registry) :
    type.ClosedIn registry' := by
  induction closed with
  | primitive registered =>
    obtain ⟨declaration, found, bare⟩ := exists_getElem?_of_bare same registered
    cases declaration <;> simp_all [Declaration.bare]
    exact .primitive found
  | blob registered =>
    obtain ⟨declaration, found, bare⟩ := exists_getElem?_of_bare same registered
    cases declaration <;> simp_all [Declaration.bare]
    exact .blob found
  | list _ ih => exact .list ih
  | set _ ih => exact .set ih
  | map _ _ keyIh valueIh => exact .map keyIh valueIh
  | record registered =>
    obtain ⟨type, found⟩ := HasRecord.of_bare same ⟨_, registered⟩
    exact .record found
  | enumeration registered =>
    obtain ⟨declaration, found, bare⟩ := exists_getElem?_of_bare same registered
    cases declaration with
    | enumeration type => exact .enumeration found
    | _ => simp [Declaration.bare] at bare

/-- A closed type can be written out. -/
theorem exists_describe_of_closedIn {registry : Registry} {type : SchemaType}
    (closed : type.ClosedIn registry) : ∃ text, registry.describe type = .ok text := by
  have named {id : TypeId} {declaration : Declaration}
      (registered : registry.declarations[id]? = some declaration) :
      registry.nameOf id = .ok declaration.name := nameOf_eq_ok_iff.mpr ⟨_, registered, rfl⟩
  induction closed with
  | primitive => exact ⟨_, rfl⟩
  | blob => exact ⟨_, rfl⟩
  | list _ ih =>
    obtain ⟨text, described⟩ := ih
    exact ⟨_, by rw [describe, described]; rfl⟩
  | set _ ih =>
    obtain ⟨text, described⟩ := ih
    exact ⟨_, by rw [describe, described]; rfl⟩
  | map _ _ keyIh valueIh =>
    obtain ⟨key, describedKey⟩ := keyIh
    obtain ⟨value, describedValue⟩ := valueIh
    exact ⟨_, by rw [describe, describedKey, describedValue]⟩
  | record registered => exact ⟨_, named registered⟩
  | enumeration registered => exact ⟨_, named registered⟩

end Registry

/-- The property belongs to the owner, its type refers to what is registered, its representation is
the one of its type, and its keys are as set. -/
structure Property.ClosedIn (registry : Registry) (camelCaseKeys : Bool) (owner : TypeId)
    (property : Property) : Prop where
  owner : property.owner = owner
  type : property.type.ClosedIn registry
  kind : registry.Represents property.type property.kind
  keys : property.camelCaseKeys = camelCaseKeys

/-- A property that a node describes is closed. -/
theorem Registry.Describes.closedIn {registry : Registry} {camelCaseKeys : Bool} {owner : TypeId}
    {node : Node} {reading : Property × Bool}
    (describes : registry.Describes
      (fun reference type => registry.typeNamed (some owner) reference = .ok type)
      camelCaseKeys owner node reading) : reading.1.ClosedIn registry camelCaseKeys owner := by
  obtain ⟨_, denotes, _, represents, _⟩ := describes
  exact ⟨rfl, closedIn_of_denotes denotes, represents, rfl⟩

/-- A record that nodes fill in has closed properties only, one of which is its identity if it has
one. -/
theorem Registry.Filled.closedIn {registry : Registry} {camelCaseKeys : Bool} {id : TypeId}
    {nodes : List Node} {shell : Declaration} {record : RecordType}
    (user : shell.isUser = true)
    (filled : registry.Filled
      (fun reference type => registry.typeNamed (some id) reference = .ok type) camelCaseKeys id
      nodes shell (.record record)) :
    (∀ property ∈ record.properties, property.ClosedIn registry camelCaseKeys id) ∧
      ∀ index, record.identity = some index → index < record.properties.length := by
  cases filled with
  | builtin builtin => simp [user] at builtin
  | @record type readings _ described =>
    constructor
    · intro property listed
      obtain ⟨reading, read, rfl⟩ := List.mem_map.mp listed
      obtain ⟨index, atIndex⟩ := List.mem_iff_get.mp read
      obtain ⟨sameLength, describes⟩ := List.forall₂_iff_get.mp described
      have node := describes index (by rw [sameLength]; exact index.isLt) index.isLt
      exact atIndex ▸ node.closedIn
    · intro index last
      simpa using lastDesignated?_lt last

/-- No compile that succeeds leaves a loose end in the properties of a record, whatever the shape
of the schema: each belongs to this record, refers to what is registered, is represented as its type
is, which is what would be chosen for the type now, and its type can be written out. The identity is
one of the properties. -/
theorem compile_closed {settings : Settings} {moment : Instant} {schema : Schema}
    {registry : Registry} (success : (compile settings moment schema).result = .ok registry)
    {id : TypeId} {record : RecordType}
    (found : registry.declarations[id]? = some (.record record)) :
    (∀ property ∈ record.properties,
      property.ClosedIn registry settings.camelCaseKeys id ∧
        registry.kindFor property.type = .ok property.kind ∧
        ∃ text, registry.describe property.type = .ok text) ∧
      ∀ index, record.identity = some index → index < record.properties.length := by
  obtain ⟨builtins, contents, visited, rfl⟩ := result_eq_ok_iff.mp success
  have sound := Shells.sound_ofSchema (withBuiltins_eq_ok_iff.mpr ⟨builtins, rfl⟩) schema
  have same := Contents.bare_of_visitAll visited
  obtain ⟨shell, atShell, bare⟩ := exists_getElem?_of_bare same.symm found
  obtain ⟨declaration, atId, filled⟩ := Contents.filled_of_visitAll sound.distinct sound.bare
    (Contents.knows_of_visitAll (knows_nil _) visited) visited atShell
  rw [found, Option.some.injEq] at atId
  subst declaration
  have user : shell.isUser = true := by
    rw [← Declaration.isUser_bare, bare]
    rfl
  obtain ⟨properties, identity⟩ := filled.closedIn user
  refine ⟨fun property listed => ?_, identity⟩
  obtain ⟨owner, type, kind, keys⟩ := properties property listed
  have closed := closedIn_of_bare same type
  have represents := kind.of_bare same
  exact ⟨⟨owner, closed, represents, keys⟩, kindFor_eq_ok_iff.mpr represents,
    exists_describe_of_closedIn closed⟩

/-- In the graph of linked types all three properties of the record lead somewhere. -/
theorem compile_closed_linkedSchema :
    ∃ registry record, (compile Settings.default Instant.epoch linkedSchema).result = .ok registry ∧
      registry.declarations[9]? = some (Declaration.record record) ∧
      record.properties.length = 3 ∧
      ∀ property ∈ record.properties, property.ClosedIn registry false 9 := by
  have placed : WellPlaced linkedSchema := by decide
  obtain ⟨registry, success⟩ := wellFormed_linkedSchema.result placed Instant.epoch
  have graph := isGraph_of_result placed success
  have declared : Site.mk [] (linkedSchema.head (by decide)) ∈ Site.declarations [] linkedSchema :=
    List.mem_cons_self
  obtain ⟨declaration, atId, described⟩ := graph.describes declared
  have position : registry.names.idxOf (Site.name ⟨[], linkedSchema.head (by decide)⟩) = 9 := by
    rw [graph.names]
    decide
  rw [position] at atId
  have three : ∃ record : RecordType,
      declaration = .record record ∧ record.properties.length = 3 := by
    cases described with
    | builtin builtin => simp [Site.isUser_shell] at builtin
    | record readings => exact ⟨_, rfl, by rw [List.length_map, ← readings.length_eq]; rfl⟩
  obtain ⟨record, rfl, length⟩ := three
  exact ⟨registry, record, success, atId, length, fun property listed =>
    ((compile_closed success atId).1 property listed).1⟩

end SchemaGraph
