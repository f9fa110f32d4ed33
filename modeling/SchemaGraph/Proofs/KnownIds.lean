import SchemaGraph.Proofs.SiteFaults
import SchemaGraph.Proofs.SkippedDeclarations

/-!
# Only registered ids are looked up

An id is a position in the registry, so a pass must never look up an id that the registry at hand
does not hold. What a compile looks up is listed here beside the functions that do it, and every
id of the list is held; that the functions look up nothing else is shown in `Footprints`. The first
pass keeps its scope a record on the way down, and the second pass changes nothing but contents, so
the owner of a member, the records around it and whatever is found under a name stay where they are.
For the same reason the errors that would tell of a broken registry are never raised.
-/

namespace SchemaGraph

open Node Registry

/-- The fault is not one of the schema: something that the passes have registered themselves is
missing or of the wrong kind. -/
def StructuralFault.Internal : StructuralFault → Prop
  | notInRecord _ => True
  | shellNotEnumeration => True
  | ownerNotRecord _ => True
  | unknownId _ => True
  | _ => False

/-- The error is at its root an internal fault. -/
def CompileError.Internal : CompileError → Prop
  | structuralParse fault _ => fault.Internal
  | inProperty _ _ source => source.Internal
  | _ => False

/-- An id that is looked up, and the registry at hand. -/
structure Lookup where
  registry : Registry
  id : TypeId

namespace Registry

/-- The registry holds a declaration of the id. -/
def Holds (registry : Registry) (id : TypeId) : Prop :=
  ∃ declaration, registry.get id = .ok declaration

/-- The ids of a registry are those below its size. -/
theorem holds_iff {registry : Registry} {id : TypeId} : registry.Holds id ↔ id < registry.size := by
  constructor
  · rintro ⟨declaration, found⟩
    exact (List.getElem?_eq_some_iff.mp (get_eq_ok_iff.mp found)).1
  · intro inRange
    exact ⟨_, get_eq_ok_iff.mpr (List.getElem?_eq_getElem inRange)⟩

/-- An id with a declaration is held. -/
theorem holds_of_getElem? {registry : Registry} {id : TypeId} {declaration : Declaration}
    (found : registry.declarations[id]? = some declaration) : registry.Holds id :=
  ⟨declaration, get_eq_ok_iff.mpr found⟩

/-- An id found under a name is held. -/
theorem holds_of_find? {registry : Registry} {name : String} {id : TypeId}
    (found : registry.find? name = some id) : registry.Holds id := by
  obtain ⟨_, atId, _⟩ := name_of_find? found
  exact holds_of_getElem? atId

/-- The id of a record is held. -/
theorem HasRecord.holds {registry : Registry} {id : TypeId} (record : registry.HasRecord id) :
    registry.Holds id := by
  obtain ⟨_, found⟩ := record
  exact holds_of_getElem? found

/-- Ids that are looked up in this registry. -/
def lookUp (registry : Registry) (ids : List TypeId) : List Lookup :=
  ids.map (Lookup.mk registry)

/-- The ids on the way from a declaration outward, through the records around it. -/
def idsOutward (registry : Registry) : Nat → TypeId → List TypeId
  | 0, id => [id]
  | depth + 1, id =>
    id ::
      match registry.declarations[id]?.bind Declaration.parent with
      | some parent => registry.idsOutward depth parent
      | none => []

/-- What is looked up to find the type of a name from inside a record: the record, those around
it, and what is found. -/
def idsNaming (registry : Registry) (owner : TypeId) (reference : String) : List TypeId :=
  registry.idsOutward registry.size owner ++
    match registry.resolve (some owner) reference with
    | .ok id => [id]
    | .error _ => []

/-- What is looked up to read a property from the nodes behind its name, whichever of them are
read as names: all of the above, and the enumeration that represents the property. -/
def idsReading (registry : Registry) (owner : TypeId) (nodes : List Node) : List TypeId :=
  nodes.flatMap (fun node => registry.idsNaming owner node.text) ++
    match registry.resolveType (some owner) nodes with
    | .ok (.enumeration id, _) => [id]
    | _ => []

/-- What is looked up to add the property of a node to its owner. -/
def idsFilling (registry : Registry) (owner : TypeId) (node : Node) : List TypeId :=
  owner ::
    match node.children with
    | [] => []
    | _ :: nodes => registry.idsReading owner nodes

/-- What is looked up to claim the shell of a node: its parent, and what is found under the
qualified name. -/
def idsClaiming (registry : Registry) (parent : Option TypeId) (node : Node) : List TypeId :=
  match node.children with
  | [] => []
  | name :: _ =>
    parent.toList ++
      match registry.qualify parent name.text with
      | .ok qualified => (registry.find? qualified).toList
      | .error _ => []

end Registry

namespace Shells

mutual
/-- What the first pass looks up at a node that stands inside a parent and below it. At a node it
is the parent, for the qualified name, for the children of the parent or for the scope of a
skip, and then the id that is given out. -/
def lookups (parent : Option TypeId) : Node → Shells → List Lookup
  | ⟨_, _, [], _⟩, _ => []
  | ⟨kind, _, name :: members, _⟩, shells =>
    shells.registry.lookUp parent.toList ++
      match registerNamed shells.registry parent kind name with
      | .ok (some (id, registry)) =>
        let scope := if kind = .record then some id else none
        ⟨registry, id⟩ :: lookupsAll scope (name :: members) { shells with registry }
      | .ok none => lookupsAll none (name :: members) shells
      | .error _ => []
/-- What the first pass looks up at trees that stand side by side inside a parent. -/
def lookupsAll (parent : Option TypeId) : List Node → Shells → List Lookup
  | [], _ => []
  | node :: rest, shells =>
    lookups parent node shells ++ lookupsAll parent rest (declare parent node shells)
end

end Shells

namespace Contents

mutual
/-- What the second pass looks up to fill in the record of a node. -/
def lookupsOfRecord (camelCaseKeys : Bool) (parent : Option TypeId) :
    Node → Contents → List Lookup
  | ⟨_, _, [], _⟩, _ => []
  | ⟨kind, text, name :: members, position⟩, contents =>
    contents.registry.lookUp
        (contents.registry.idsClaiming parent ⟨kind, text, name :: members, position⟩) ++
      match contents.claim parent .record name with
      | .ok (id, claimed) => lookupsOfMembers camelCaseKeys id members claimed
      | .error _ => []
/-- What the second pass looks up to fill in the members of a record, up to the first fault. -/
def lookupsOfMembers (camelCaseKeys : Bool) (owner : TypeId) :
    List Node → Contents → List Lookup
  | [], _ => []
  | member :: rest, contents =>
    (match member.kind with
      | .record => lookupsOfRecord camelCaseKeys (some owner) member contents
      | .enumeration =>
        contents.registry.lookUp (contents.registry.idsClaiming (some owner) member)
      | .property => contents.registry.lookUp (contents.registry.idsFilling owner member)
      | .comment => [⟨contents.registry, owner⟩]
      | _ => []) ++
      match fillMembers camelCaseKeys owner [member] contents with
      | .ok filled => lookupsOfMembers camelCaseKeys owner rest filled
      | .error _ => []
end

/-- What the second pass looks up to fill in a node of the top level. -/
def lookupsOfTop (camelCaseKeys : Bool) (node : Node) (contents : Contents) : List Lookup :=
  match node.kind with
  | .record => lookupsOfRecord camelCaseKeys none node contents
  | .enumeration => contents.registry.lookUp (contents.registry.idsClaiming none node)
  | _ => []

/-- What the second pass looks up at the nodes of the top level, up to the first fault. -/
def lookupsOfAll (camelCaseKeys : Bool) : Schema → Contents → List Lookup
  | [], _ => []
  | node :: rest, contents =>
    lookupsOfTop camelCaseKeys node contents ++
      match fillTop camelCaseKeys node contents with
      | .ok filled => lookupsOfAll camelCaseKeys rest filled
      | .error _ => []

end Contents

/-- All that a compile looks up by id. The builtin types stand in no record, so nothing is looked
up to register them. -/
def compileLookups (settings : Settings) (schema : Schema) : List Lookup :=
  match Registry.withBuiltins settings.primitives settings.blob with
  | .error _ => []
  | .ok builtins =>
    Shells.lookupsAll none schema ⟨builtins, []⟩ ++
      Contents.lookupsOfAll settings.camelCaseKeys schema
        ⟨(Shells.ofSchema builtins schema).registry, []⟩

namespace Registry

variable {registry : Registry}

/-- What holds of all lookups of ids is said of the ids. -/
theorem forall_mem_lookUp {ids : List TypeId} {P : Lookup → Prop} :
    (∀ lookup ∈ registry.lookUp ids, P lookup) ↔ ∀ id ∈ ids, P ⟨registry, id⟩ :=
  List.forall_mem_map

/-- The id of a scope is held. -/
theorem HasScope.holds {scope : Option TypeId} (known : registry.HasScope scope) :
    ∀ id ∈ scope.toList, registry.Holds id := by
  intro id listed
  exact (known id (Option.mem_toList.mp listed)).holds

/-- Parents are registered in front of their children, so the way outward stays in the registry.
-/
theorem holds_idsOutward (precede : registry.ParentsPrecede) (depth : Nat) {start : TypeId}
    (held : registry.Holds start) : ∀ id ∈ registry.idsOutward depth start, registry.Holds id := by
  induction depth generalizing start with
  | zero => exact List.forall_mem_singleton.mpr held
  | succ depth ih =>
    refine List.forall_mem_cons.mpr ⟨held, ?_⟩
    cases around : registry.declarations[start]?.bind Declaration.parent with
    | none => simp
    | some parent =>
      obtain ⟨declaration, found, nested⟩ := Option.bind_eq_some_iff.mp around
      have before := precede start declaration parent found nested
      exact ih (holds_iff.mpr (before.trans (holds_iff.mp held)))

/-- What a reference is resolved to is held. -/
theorem holds_of_resolve {scope : Option TypeId} {reference : String} {id : TypeId}
    (found : registry.resolve scope reference = .ok id) : registry.Holds id := by
  obtain ⟨_, typed⟩ := exists_typeOf_of_resolve found
  obtain ⟨declaration, atId, _⟩ := map_eq_ok_iff.mp typed
  exact ⟨declaration, atId⟩

/-- From an owner that is held, everything that is looked up for a name is. -/
theorem holds_idsNaming (precede : registry.ParentsPrecede) {owner : TypeId}
    (held : registry.Holds owner) (reference : String) :
    ∀ id ∈ registry.idsNaming owner reference, registry.Holds id := by
  refine List.forall_mem_append.mpr ⟨holds_idsOutward precede _ held, ?_⟩
  cases result : registry.resolve (some owner) reference with
  | error error => simp
  | ok id => exact List.forall_mem_singleton.mpr (holds_of_resolve result)

/-- The enumeration that a type expression is resolved to is one of the registry. -/
theorem holds_of_resolveType {scope : Option TypeId} {tokens rest : List Node} {id : TypeId}
    (resolved : registry.resolveType scope tokens = .ok (.enumeration id, rest)) :
    registry.Holds id := by
  obtain ⟨_, _, _, _, denotes⟩ := resolveType_eq_ok_iff_spells.mp resolved
  obtain ⟨kind, represents⟩ := exists_represents_of_denotes denotes
  cases represents with
  | enumeration registered => exact holds_of_getElem? registered

/-- Every id that is looked up to fill in a property is held. -/
theorem holds_idsFilling (precede : registry.ParentsPrecede) {owner : TypeId}
    (held : registry.Holds owner) (node : Node) :
    ∀ id ∈ registry.idsFilling owner node, registry.Holds id := by
  refine List.forall_mem_cons.mpr ⟨held, ?_⟩
  cases node.children with
  | nil => simp
  | cons name nodes =>
    refine List.forall_mem_append.mpr ⟨fun id listed => ?_, ?_⟩
    · obtain ⟨node, _, named⟩ := List.mem_flatMap.mp listed
      exact holds_idsNaming precede held node.text id named
    · split
      · rename_i resolved
        exact List.forall_mem_singleton.mpr (holds_of_resolveType resolved)
      · simp

/-- Every id that is looked up to claim a shell is held. -/
theorem holds_idsClaiming {parent : Option TypeId} (known : registry.HasScope parent)
    (node : Node) : ∀ id ∈ registry.idsClaiming parent node, registry.Holds id := by
  rw [idsClaiming]
  cases node.children with
  | nil => simp
  | cons name members =>
    refine List.forall_mem_append.mpr ⟨known.holds, ?_⟩
    cases registry.qualify parent name.text with
    | error error => simp
    | ok qualified =>
      intro id listed
      exact holds_of_find? (Option.mem_toList.mp listed)

end Registry

namespace Shells

/-- What is looked up at a node follows what is registered there. -/
theorem lookups_eq (parent : Option TypeId) (node : Node) (shells : Shells) :
    lookups parent node shells =
      if node.children = [] then []
      else
        shells.registry.lookUp parent.toList ++
          match registerNode shells.registry parent node with
          | .ok (some (id, registry)) =>
            ⟨registry, id⟩ :: lookupsAll (node.scopeFor id) node.children { shells with registry }
          | .ok none => lookupsAll none node.children shells
          | .error _ => [] := by
  obtain ⟨kind, text, children, position⟩ := node
  cases children <;> rfl

/-- A scope stays one while the first pass goes on. -/
theorem HasScope.declare {parent scope : Option TypeId} {shells : Shells}
    (known : shells.registry.HasScope scope) (node : Node) :
    (declare parent node shells).registry.HasScope scope := by
  refine registry_induction (I := fun registry => registry.HasScope scope) ?_
    (declareAll_steps parent [node] shells) known
  intro _ _ _ _ _ success known
  exact known.of_keeps (keeps_of_register success)

/-- Whatever the first pass looks up is registered. -/
theorem holds_lookupsAll {parent : Option TypeId} (nodes : List Node) {shells : Shells}
    (known : shells.registry.HasScope parent) :
    ∀ lookup ∈ lookupsAll parent nodes shells, lookup.registry.Holds lookup.id := by
  induction nodes using forest_induction generalizing parent shells with
  | nil => simp [lookupsAll]
  | cons node rest children _ ih =>
    refine List.forall_mem_append.mpr ⟨?_, ih (HasScope.declare known node)⟩
    rw [lookups_eq]
    split
    · simp
    · rename_i notEmpty
      refine List.forall_mem_append.mpr ⟨forall_mem_lookUp.mpr known.holds, ?_⟩
      by_cases declares : node.declares = true
      · rcases registers_or_refuses known notEmpty with
          ⟨name, id, grown, registers⟩ | ⟨error, refuses⟩
        · rw [registers.registerNode declares]
          have given := holds_of_getElem? (getElem?_registered registers.success)
          exact List.forall_mem_cons.mpr ⟨given, children (hasScope_scopeFor registers)⟩
        · rw [refuses.registerNode declares]
          simp
      · rw [registerNode_eq_none_iff.mpr (.inl (by simpa using declares))]
        exact children (hasScope_none _)

end Shells

namespace Contents

variable {camelCaseKeys : Bool} {path : List String} {contents : Contents}

/-- To fill in a record is to look up its shell and what its members ask for. -/
theorem holds_lookupsOfRecord {node : Node} (knows : contents.registry.Knows path)
    (inner : ∀ (claimed : Contents) (owner : TypeId),
      claimed.registry.bare = contents.registry.bare →
      claimed.registry.scopeOf (node.localName :: path) = some owner →
      claimed.registry.HasRecord owner →
      ∀ lookup ∈ lookupsOfMembers camelCaseKeys owner node.members claimed,
        lookup.registry.Holds lookup.id) :
    ∀ lookup ∈ lookupsOfRecord camelCaseKeys (contents.registry.scopeOf path) node contents,
      lookup.registry.Holds lookup.id := by
  obtain ⟨kind, text, children, position⟩ := node
  cases children with
  | nil => simp [lookupsOfRecord]
  | cons name members =>
    rw [lookupsOfRecord]
    refine List.forall_mem_append.mpr ⟨?_, ?_⟩
    · refine forall_mem_lookUp.mpr (holds_idsClaiming (fun id scope => ?_) _)
      exact knows.hasRecord scope
    · cases claim : contents.claim (contents.registry.scopeOf path) .record name with
      | error error => simp
      | ok result =>
        obtain ⟨id, claimed⟩ := result
        obtain ⟨_, found, shell, _, rfl⟩ := (claim_eq_ok_iff knows).mp claim
        exact inner _ id rfl found (hasRecord_iff_kind.mpr shell)

/-- Whatever the second pass looks up inside a record is registered. -/
theorem holds_lookupsOfMembers {owner : TypeId} (nodes : List Node)
    (precede : contents.registry.ParentsPrecede)
    (scope : contents.registry.scopeOf path = some owner)
    (record : contents.registry.HasRecord owner) :
    ∀ lookup ∈ lookupsOfMembers camelCaseKeys owner nodes contents,
      lookup.registry.Holds lookup.id := by
  -- What is carried along is read off the shells, and filling in leaves the shells as they are.
  induction nodes using forest_induction generalizing path owner contents with
  | nil => simp [lookupsOfMembers]
  | cons node rest _ members ih =>
    have knows := knows_of_scopeOf scope record
    rw [lookupsOfMembers]
    refine List.forall_mem_append.mpr ⟨?_, ?_⟩
    · split
      · rw [← scope]
        exact holds_lookupsOfRecord knows fun claimed id same =>
          members (precede.of_bare same)
      · refine forall_mem_lookUp.mpr (holds_idsClaiming (fun id same => ?_) _)
        exact Option.some.inj same ▸ record
      · exact forall_mem_lookUp.mpr (holds_idsFilling precede record.holds node)
      · exact List.forall_mem_singleton.mpr record.holds
      · simp
    · cases filled : fillMembers camelCaseKeys owner [node] contents with
      | error stopped => simp
      | ok next =>
        rw [fillMembers_eq_visitAll scope record] at filled
        have same := bare_of_visitAll filled
        exact ih (precede.of_bare same) ((scopeOf_of_bare same path).trans scope)
          (record.of_bare same)

/-- Whatever the second pass looks up is registered. -/
theorem holds_lookupsOfAll (schema : Schema) (precede : contents.registry.ParentsPrecede) :
    ∀ lookup ∈ lookupsOfAll camelCaseKeys schema contents, lookup.registry.Holds lookup.id := by
  induction schema generalizing contents with
  | nil => simp [lookupsOfAll]
  | cons node rest ih =>
    rw [lookupsOfAll]
    refine List.forall_mem_append.mpr ⟨?_, ?_⟩
    · rw [lookupsOfTop]
      split
      · exact holds_lookupsOfRecord (knows_nil _) fun claimed id same =>
          holds_lookupsOfMembers _ (precede.of_bare same)
      · exact forall_mem_lookUp.mpr (holds_idsClaiming (hasScope_none _) _)
      · simp
    · cases filled : fillTop camelCaseKeys node contents with
      | error stopped => simp
      | ok next =>
        have alone : fillAll camelCaseKeys [node] contents = .ok next := by
          rw [fillAll, filled]
          rfl
        exact ih (precede.of_bare (bare_of_fillAll alone))

end Contents

section Internal

/-- A name is unfit because of the schema. -/
theorem not_internal_of_declarationName {name : Node} {error : CompileError}
    (unread : declarationName name = .error error) : ¬ error.Internal := by
  obtain ⟨_, rfl⟩ | ⟨_, _, rfl⟩ := declarationName_eq_error_iff.mp unread <;> exact id

/-- The first pass skips declarations for what they are only. -/
theorem Run.not_internal {registry done : Registry} {log : List Attempt}
    (run : Run registry log done) :
    ∀ skip ∈ log.filterMap Attempt.skip?, ¬ skip.error.Internal := by
  induction run with
  | nil => simp
  | @registered attempt _ _ _ _ _ _ _ outcome _ ih =>
    have registered : attempt.skip? = none := by rw [Attempt.skip?, outcome]
    rwa [List.filterMap_cons_none registered]
  | @skipped attempt _ _ _ error scope refuses outcome _ ih =>
    have skipped : attempt.skip? = some ⟨error, scope⟩ := by rw [Attempt.skip?, outcome]
    rw [List.filterMap_cons_some skipped]
    refine List.forall_mem_cons.mpr ⟨?_, ih⟩
    cases refuses with
    | unfit _ unread => exact not_internal_of_declarationName unread
    | taken => exact id

namespace Registry

variable {registry : Registry}

/-- A property of a record cannot be read because of the schema. -/
theorem not_internal_of_readProperty {camelCaseKeys : Bool} {owner : TypeId}
    (record : registry.HasRecord owner) {name : String} {nodes : List Node} {error : CompileError}
    (unread : registry.readProperty camelCaseKeys owner name nodes = .error error) :
    ¬ error.Internal := by
  obtain unresolved | ⟨_, _, _, refused⟩ := readProperty_eq_error_iff.mp unread
  · obtain ⟨around, named⟩ : ∃ around, registry.scopeName (some owner) = .ok around :=
      exists_scopeName fun id same => Option.some.inj same ▸ holds_iff.mp record.holds
    have stuck := (resolveType_eq_error_iff named).mp unresolved
    obtain ⟨_, rfl⟩ | ⟨_, rfl⟩ := stuck.error_eq <;> exact id
  · obtain ⟨_, _, _, _, _, _, rejected⟩ := read_eq_error_iff.mp refused
    obtain rfl | rfl | ⟨_, rfl⟩ := error_of_ofNode rejected <;> exact id

/-- A property is not added to a record because of the schema. -/
theorem not_internal_of_fillProperty {camelCaseKeys : Bool} {owner : TypeId}
    (record : registry.HasRecord owner) {node : Node} {error : CompileError}
    (unfilled :
      (Change.fillProperty camelCaseKeys owner node).run registry = .error error registry) :
    ¬ error.Internal := by
  obtain ⟨type, found⟩ := record
  have named : registry.nameOf owner = .ok type.name := nameOf_eq_ok_iff.mpr ⟨_, found, rfl⟩
  obtain ⟨_, rfl⟩ | ⟨name, _, source, _, unread, rfl⟩ :=
    (fillProperty_eq_error_iff named ⟨type, found⟩).mp unfilled
  · exact id
  · have inner : ¬ source.Internal := not_internal_of_readProperty ⟨type, found⟩ unread
    exact inner

end Registry

/-- The second pass is stopped because of the schema. -/
theorem Contents.Fails.not_internal {camelCaseKeys : Bool} {site : Site} {contents : Contents}
    {error : CompileError} (fails : Contents.Fails camelCaseKeys site contents error)
    (knows : contents.registry.Knows site.path) : ¬ error.Internal := by
  cases fails with
  | unnamed => exact id
  | misnamed _ _ unread => exact not_internal_of_declarationName unread
  | missing => exact id
  | taken => exact id
  | property _ scope unfilled => exact not_internal_of_fillProperty (knows.hasRecord scope) unfilled

/-- A compile fails for what the schema or the settings are only. -/
theorem not_internal_of_result {settings : Settings} {moment : Instant} {schema : Schema}
    {error : CompileError} (failed : (compile settings moment schema).result = .error error) :
    ¬ error.Internal := by
  by_cases distinct : settings.builtinNames.Nodup
  · obtain ⟨left, stopped⟩ := (result_eq_error_iff distinct).mp failed
    obtain ⟨front, site, behind, middle, split, visited, stops⟩ :=
      Contents.visitAll_eq_error_iff.mp stopped
    have knows := (Contents.knows_of_split split (knows_nil _) visited).of_bare
      (Contents.bare_of_visitAll visited)
    exact ((Contents.visit_eq_error_iff knows).mp stops).1.not_internal knows
  · obtain ⟨name, failure⟩ := compile_of_collide distinct moment schema
    rw [failure] at failed
    obtain rfl := Except.error.inj failed
    exact id

end Internal

/-- Whatever the settings and the shape of the trees, every id that a compile looks up in either
pass is held by the registry at hand, whether the compile succeeds or fails. No declaration is
skipped and no compile fails for a parent that is no record, for a shell that is no enumeration,
for an owner that is no record or for an id that is not registered. -/
theorem compile_looks_up_held (settings : Settings) (moment : Instant) (schema : Schema) :
    (∀ lookup ∈ compileLookups settings schema,
      ∃ declaration, lookup.registry.get lookup.id = .ok declaration) ∧
    (∀ builtins, withBuiltins settings.primitives settings.blob = .ok builtins →
      ∀ skip ∈ (Shells.ofSchema builtins schema).skips, ¬ skip.error.Internal) ∧
    ∀ error, (compile settings moment schema).result = .error error → ¬ error.Internal := by
  refine ⟨?_, fun builtins _ => ?_, fun _ => not_internal_of_result⟩
  · rw [compileLookups]
    cases registered : withBuiltins settings.primitives settings.blob with
    | error error => simp
    | ok builtins =>
      refine List.forall_mem_append.mpr ⟨?_, ?_⟩
      · exact Shells.holds_lookupsAll schema (hasScope_none _)
      · exact Contents.holds_lookupsOfAll schema (Shells.sound_ofSchema registered schema).precede
  · obtain ⟨done, walk⟩ := Shells.walk_attempts schema (hasScope_none builtins)
    rw [Shells.ofSchema, walk.declareAll_eq, List.nil_append]
    exact walk.run.not_internal

/-- A record that is declared twice is looked up, skipped and reported, and never missing. -/
theorem compile_looks_up_held_repeatedSchema :
    withBuiltins Settings.default.primitives Settings.default.blob =
      .ok ⟨Settings.default.builtins⟩ ∧
    (∃ lookup ∈ compileLookups Settings.default repeatedSchema, lookup.id = 9 ∧
      ∃ declaration, lookup.registry.get 9 = .ok declaration) ∧
    (∃ skip ∈ (Shells.ofSchema ⟨Settings.default.builtins⟩ repeatedSchema).skips,
      skip.error = .duplicateType "Order" ∧ ¬ skip.error.Internal) ∧
    ∃ error, (compile Settings.default Instant.epoch repeatedSchema).result = .error error ∧
      error = .duplicateType "Order" ∧ ¬ error.Internal := by
  have builtins : withBuiltins Settings.default.primitives Settings.default.blob =
      .ok ⟨Settings.default.builtins⟩ := rfl
  obtain ⟨held, skips, fails⟩ :=
    compile_looks_up_held Settings.default Instant.epoch repeatedSchema
  obtain ⟨lookup, listed, isOrder⟩ :
      ∃ lookup ∈ compileLookups Settings.default repeatedSchema, lookup.id = 9 := by decide
  obtain ⟨skip, skipped, repeats⟩ :
      ∃ skip ∈ (Shells.ofSchema ⟨Settings.default.builtins⟩ repeatedSchema).skips,
        skip.error = .duplicateType "Order" := by decide
  have failed : (compile Settings.default Instant.epoch repeatedSchema).result =
      .error (.duplicateType "Order") := rfl
  exact ⟨builtins, ⟨lookup, listed, isOrder, isOrder ▸ held lookup listed⟩,
    ⟨skip, skipped, repeats, skips _ builtins skip skipped⟩, _, failed, rfl, fails _ failed⟩

end SchemaGraph
