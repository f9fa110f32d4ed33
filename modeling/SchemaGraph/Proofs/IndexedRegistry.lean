import SchemaGraph.Proofs.Coherence
import SchemaGraph.Registry.Indexed

/-!
# The index of names keeps in step

The registry is kept three times over: as declarations, as an index of their names, and as links
between parents and children. A registration touches all three, one after the other. The index is in
step if it finds what a search through the declarations finds. Every operation keeps it in step,
does to the declarations what it does to a registry without an index, and gives the same answer; and
what is refused is refused before anything is touched. So whatever is known of coherent registries
holds of the registry as it is kept.
-/

namespace SchemaGraph

open Registry

namespace Registry

variable {registry : Registry}

/-- A declaration at the end is found unless its name is found before. -/
theorem find?_push (registry : Registry) (declaration : Declaration) (name : String) :
    (registry.push declaration).find? name =
      (registry.find? name).or (if declaration.name = name then some registry.size else none) := by
  rw [find?, push, List.findIdx?_append, find?]
  by_cases same : declaration.name = name <;> simp [same, List.findIdx?_cons, size]

/-- A change of a record that leaves its name leaves what is found. -/
theorem find?_onRecord (registry : Registry) (id : TypeId) {change : RecordType → RecordType}
    (keeps : ∀ record, (change record).name = record.name) (name : String) :
    (registry.onRecord id change).find? name = registry.find? name := by
  have names : (registry.onRecord id change).names = registry.names :=
    map_onRecord registry id change Declaration.name keeps
  rw [find?_eq, find?_eq, names]

/-- A change of an enumeration that leaves its name leaves what is found. -/
theorem find?_onEnumeration (registry : Registry) (id : TypeId) {change : EnumType → EnumType}
    (keeps : ∀ type, (change type).name = type.name) (name : String) :
    (registry.onEnumeration id change).find? name = registry.find? name := by
  have names : (registry.onEnumeration id change).names = registry.names :=
    map_onEnumeration registry id change Declaration.name keeps
  rw [find?_eq, find?_eq, names]

/-- A change of an earlier record and a declaration at the end do not meet. -/
theorem onRecord_push {id : TypeId} (inRange : id < registry.size)
    (change : RecordType → RecordType) (declaration : Declaration) :
    (registry.push declaration).onRecord id change =
      (registry.onRecord id change).push declaration := by
  rw [Registry.mk.injEq]
  apply List.ext_getElem?
  intro index
  have length : (registry.onRecord id change).declarations.length = registry.declarations.length :=
    List.length_modify ..
  rw [getElem?_onRecord, push, push]
  by_cases earlier : index < registry.declarations.length
  · rw [List.getElem?_append_left earlier, List.getElem?_append_left (length ▸ earlier),
      getElem?_onRecord]
  · have apart : id ≠ index := fun same => earlier (same ▸ inRange)
    have behind := Nat.le_of_not_lt earlier
    rw [List.getElem?_append_right behind, List.getElem?_append_right (length ▸ behind), length]
    simp [apart]

end Registry

namespace IndexedRegistry

variable {indexed : IndexedRegistry}

/-- The index finds what a search through the declarations finds. -/
def WellIndexed (indexed : IndexedRegistry) : Prop :=
  ∀ name, indexed.ids[name]? = indexed.toRegistry.find? name

/-- To append a declaration is to append it to the list. -/
@[simp] theorem toRegistry_push (indexed : IndexedRegistry) (declaration : Declaration) :
    (indexed.push declaration).toRegistry = indexed.toRegistry.push declaration := by
  simp [toRegistry, IndexedRegistry.push, Registry.push]

/-- The index is no part of the list. -/
@[simp] theorem toRegistry_enter (indexed : IndexedRegistry) (name : String) (id : TypeId) :
    (indexed.enter name id).toRegistry = indexed.toRegistry :=
  rfl

/-- To change a record is to change it in the list. -/
@[simp] theorem toRegistry_onRecord (indexed : IndexedRegistry) (id : TypeId)
    (change : RecordType → RecordType) :
    (indexed.onRecord id change).toRegistry = indexed.toRegistry.onRecord id change := by
  simp [toRegistry, IndexedRegistry.onRecord, Registry.onRecord]

/-- To change an enumeration is to change it in the list. -/
@[simp] theorem toRegistry_onEnumeration (indexed : IndexedRegistry) (id : TypeId)
    (change : EnumType → EnumType) :
    (indexed.onEnumeration id change).toRegistry = indexed.toRegistry.onEnumeration id change := by
  simp [toRegistry, IndexedRegistry.onEnumeration, Registry.onEnumeration]

/-- The next id is the same. -/
theorem size_toRegistry (indexed : IndexedRegistry) :
    indexed.toRegistry.size = indexed.declarations.size := by
  simp [toRegistry, size]

/-- Ids lead to the same declarations. -/
theorem getElem?_toRegistry (indexed : IndexedRegistry) (id : TypeId) :
    indexed.toRegistry.declarations[id]? = indexed.declarations[id]? :=
  Array.getElem?_toList

/-- An id leads to the same record with the index and without it. -/
theorem record?_toRegistry (indexed : IndexedRegistry) (id : TypeId) :
    indexed.toRegistry.record? id = indexed.record? id := by
  rw [Registry.record?, getElem?_toRegistry, IndexedRegistry.record?]

/-- An id leads to the same enumeration with the index and without it. -/
theorem enumeration?_toRegistry (indexed : IndexedRegistry) (id : TypeId) :
    indexed.toRegistry.enumeration? id = indexed.enumeration? id := by
  rw [Registry.enumeration?, getElem?_toRegistry, IndexedRegistry.enumeration?]

/-- Two indexed registries of the same declarations and the same index are the same. -/
theorem eq_of_toRegistry {indexed' : IndexedRegistry}
    (declarations : indexed'.toRegistry = indexed.toRegistry) (ids : indexed'.ids = indexed.ids) :
    indexed' = indexed := by
  have same : indexed'.declarations = indexed.declarations :=
    Array.toList_inj.mp (Registry.mk.inj declarations)
  cases indexed
  cases indexed'
  simp_all

/-- The index is right at the start. -/
theorem wellIndexed_empty : empty.WellIndexed := by
  intro name
  simp [empty, toRegistry, find?]

/-- A look into the index is a search through the declarations. -/
theorem WellIndexed.lookup_eq (wellIndexed : indexed.WellIndexed) (name : String) :
    indexed.lookup name = indexed.toRegistry.lookup name := by
  have inIndex : indexed.ids[name]? = indexed.toRegistry.find? name := wellIndexed name
  cases found : indexed.toRegistry.find? name <;>
    simp [IndexedRegistry.lookup, Registry.lookup, inIndex, found]

/-- A name is in the index exactly if it is found in the list. -/
theorem WellIndexed.contains_eq (wellIndexed : indexed.WellIndexed) (name : String) :
    indexed.ids.contains name = (indexed.toRegistry.find? name).isSome := by
  rw [← wellIndexed, Std.HashMap.isSome_getElem?_eq_contains]

/-- A declaration of a new name is appended and entered. -/
theorem WellIndexed.enter_push (wellIndexed : indexed.WellIndexed) {declaration : Declaration}
    (isNew : indexed.toRegistry.find? declaration.name = none) :
    ((indexed.push declaration).enter declaration.name indexed.declarations.size).WellIndexed := by
  intro name
  rw [toRegistry_enter, toRegistry_push, find?_push, size_toRegistry]
  have entered : ((indexed.push declaration).enter declaration.name
      indexed.declarations.size).ids[name]? =
      if declaration.name == name then some indexed.declarations.size else indexed.ids[name]? :=
    Std.HashMap.getElem?_insert
  rw [entered, wellIndexed]
  by_cases same : declaration.name = name
  · simp [← same, isNew]
  · simp [same]

/-- The index stays right when a record is changed without being renamed. -/
theorem WellIndexed.onRecord (wellIndexed : indexed.WellIndexed) (id : TypeId)
    {change : RecordType → RecordType} (keeps : ∀ record, (change record).name = record.name) :
    (indexed.onRecord id change).WellIndexed := by
  intro name
  rw [toRegistry_onRecord, find?_onRecord _ id keeps, ← wellIndexed]
  rfl

/-- The index stays right when an enumeration is changed that keeps its name. -/
theorem WellIndexed.onEnumeration (wellIndexed : indexed.WellIndexed) (id : TypeId)
    {change : EnumType → EnumType} (keeps : ∀ type, (change type).name = type.name) :
    (indexed.onEnumeration id change).WellIndexed := by
  intro name
  rw [toRegistry_onEnumeration, find?_onEnumeration _ id keeps, ← wellIndexed]
  rfl

end IndexedRegistry

namespace Update

open IndexedRegistry

variable {indexed : IndexedRegistry}

/-! ### What the steps of a registration do -/

/-- A name that is not in the index is not refused. -/
theorem run_refuseTaken_of_new {name : String} (isNew : indexed.ids.contains name = false) :
    (refuseTaken name).run indexed = .ok () indexed := by
  simp only [refuseTaken, EStateM.run_bind, EStateM.run_get, isNew]
  rfl

/-- A taken name is refused before anything is changed. -/
theorem run_refuseTaken_of_taken {name : String} (taken : indexed.ids.contains name = true) :
    (refuseTaken name).run indexed = .error (.duplicateType name) indexed := by
  simp only [refuseTaken, EStateM.run_bind, EStateM.run_get, taken]
  rfl

/-- Where a declaration may stand is read off the declarations, which are left as they are. -/
theorem run_refuseOutside (indexed : IndexedRegistry) (declaration : Declaration) :
    (refuseOutside declaration).run indexed =
      match declaration.parent with
      | none => .ok () indexed
      | some parent =>
        match indexed.toRegistry.get parent with
        | .ok (.record _) => .ok () indexed
        | .ok _ => .error (.notInRecord declaration.name) indexed
        | .error error => .error error indexed := by
  rw [refuseOutside]
  cases declaration.parent with
  | none => rfl
  | some parent =>
    simp only [EStateM.run_bind, EStateM.run_get, Registry.get, getElem?_toRegistry]
    cases indexed.declarations[parent]? with
    | none => rfl
    | some around => cases around <;> rfl

/-- A declaration that is appended gets the next id, and only its parent is changed besides. -/
theorem run_append (indexed : IndexedRegistry) (declaration : Declaration) :
    (append declaration).run indexed =
      .ok indexed.declarations.size
        (match declaration.parent with
        | none => (indexed.push declaration).enter declaration.name indexed.declarations.size
        | some parent =>
          ((indexed.push declaration).enter declaration.name indexed.declarations.size).onRecord
            parent (RecordType.addChild indexed.declarations.size)) := by
  rw [append]
  cases declaration.parent <;> rfl

/-- A registration on the registry as it is kept follows one on the declarations alone. Both give
the same id and the same declarations, and the index keeps in step; or both are refused for the same
reason, and nothing has been touched. -/
inductive Follows (indexed : IndexedRegistry) :
    EStateM.Result RegistryError IndexedRegistry TypeId →
      Except RegistryError (TypeId × Registry) → Prop
  | registered {id : TypeId} {grown : IndexedRegistry} (wellIndexed : grown.WellIndexed) :
      Follows indexed (.ok id grown) (.ok (id, grown.toRegistry))
  | refused (error : RegistryError) : Follows indexed (.error error indexed) (.error error)

/-- What is appended under a new name, at the top level or inside a record, is appended to the
declarations and entered. -/
theorem follows_append (wellIndexed : indexed.WellIndexed) {declaration : Declaration}
    (isNew : indexed.toRegistry.find? declaration.name = none)
    (inRecord : ∀ parent, declaration.parent = some parent → indexed.toRegistry.HasRecord parent) :
    Follows indexed ((append declaration).run indexed)
      (indexed.toRegistry.register declaration) := by
  have accepted : indexed.toRegistry.register declaration = .ok (indexed.toRegistry.size,
      match declaration.parent with
      | none => indexed.toRegistry.push declaration
      | some parent => (indexed.toRegistry.onRecord parent
          (RecordType.addChild indexed.toRegistry.size)).push declaration) := by
    rw [Registry.register, isNew]
    cases parent : declaration.parent with
    | none => rfl
    | some outer =>
      obtain ⟨record, found⟩ := inRecord outer parent
      simp [get_eq_ok_iff.mpr found]
  have entered := wellIndexed.enter_push isNew
  rw [run_append, accepted, size_toRegistry]
  cases parent : declaration.parent with
  | none =>
    dsimp only
    rw [← toRegistry_push]
    exact .registered entered
  | some outer =>
    have inRange := (inRecord outer parent).lt_size
    have made := toRegistry_onRecord ((indexed.push declaration).enter declaration.name
      indexed.declarations.size) outer (RecordType.addChild indexed.declarations.size)
    rw [toRegistry_enter, toRegistry_push, onRecord_push inRange] at made
    dsimp only
    rw [← made]
    exact .registered (entered.onRecord outer fun _ => rfl)

/-- A registration checks first and changes later. -/
theorem follows_register (wellIndexed : indexed.WellIndexed) (declaration : Declaration) :
    Follows indexed ((register declaration).run indexed)
      (indexed.toRegistry.register declaration) := by
  have searched := wellIndexed.contains_eq declaration.name
  rw [register, EStateM.run_bind]
  cases taken : indexed.ids.contains declaration.name with
  | true =>
    rw [run_refuseTaken_of_taken taken, Registry.register, if_pos (searched ▸ taken)]
    exact .refused _
  | false =>
    have isNew : indexed.toRegistry.find? declaration.name = none := by
      rw [taken] at searched
      exact Option.isNone_iff_eq_none.mp (Option.isSome_eq_false_iff.mp searched.symm)
    have appends := follows_append wellIndexed isNew
    rw [run_refuseTaken_of_new taken]
    simp only [EStateM.run_bind, run_refuseOutside]
    cases parent : declaration.parent with
    | none => exact appends (by simp [parent])
    | some outer =>
      rw [Registry.register, isNew] at appends ⊢
      simp only [parent] at appends ⊢
      cases found : indexed.toRegistry.get outer with
      | error error => exact .refused error
      | ok around =>
        cases around with
        | record record =>
          simp only [found] at appends
          exact appends fun other same => ⟨record, Option.some.inj same ▸ get_eq_ok_iff.mp found⟩
        | _ => exact .refused _

/-- To qualify a name is to read it off the list, and changes nothing. -/
theorem run_qualify (indexed : IndexedRegistry) (scope : Option TypeId) (localName : String) :
    (qualify scope localName).run indexed =
      match indexed.toRegistry.qualify scope localName with
      | .ok name => .ok name indexed
      | .error error => .error error indexed := by
  cases scope with
  | none => rfl
  | some id =>
    simp only [qualify, EStateM.run_bind, EStateM.run_get, Registry.qualify, scopeName, nameOf,
      Registry.get, getElem?_toRegistry]
    cases indexed.declarations[id]? <;> rfl

/-- To register a record does in the indexed registry what it does in the list. -/
theorem follows_registerRecord (wellIndexed : indexed.WellIndexed) (parent : Option TypeId)
    (localName : String) :
    Follows indexed ((registerRecord parent localName).run indexed)
      (indexed.toRegistry.registerRecord parent localName) := by
  rw [registerRecord, EStateM.run_bind, run_qualify, Registry.registerRecord]
  cases indexed.toRegistry.qualify parent localName with
  | ok name => exact follows_register wellIndexed _
  | error error => exact .refused error

/-- To register an enumeration goes the same way with the index and without it. -/
theorem follows_registerEnumeration (wellIndexed : indexed.WellIndexed) (parent : Option TypeId)
    (localName : String) :
    Follows indexed ((registerEnumeration parent localName).run indexed)
      (indexed.toRegistry.registerEnumeration parent localName) := by
  rw [registerEnumeration, EStateM.run_bind, run_qualify, Registry.registerEnumeration]
  cases indexed.toRegistry.qualify parent localName with
  | ok name => exact follows_register wellIndexed _
  | error error => exact .refused error

/-- Declarations are registered one after the other in both registries, or in neither. -/
theorem run_registerAll (wellIndexed : indexed.WellIndexed) (declarations : List Declaration) :
    (∃ grown, (registerAll declarations).run indexed = .ok () grown ∧ grown.WellIndexed ∧
        indexed.toRegistry.registerAll declarations = .ok grown.toRegistry) ∨
      ∃ error reached, (registerAll declarations).run indexed = .error error reached ∧
        indexed.toRegistry.registerAll declarations = .error error := by
  induction declarations generalizing indexed with
  | nil => exact .inl ⟨indexed, rfl, wellIndexed, rfl⟩
  | cons declaration rest ih =>
    rw [registerAll, EStateM.run_bind, Registry.registerAll]
    have first := follows_register wellIndexed declaration
    generalize (register declaration).run indexed = result,
      indexed.toRegistry.register declaration = result' at first
    cases first with
    | registered wellIndexed => exact ih wellIndexed
    | refused error => exact .inr ⟨error, indexed, rfl, rfl⟩

/-! ### Operations on the registry as it is kept -/

/-- Perform an operation. A refusal is an error of its own. -/
def perform : Operation → Update Answer
  | .register declaration _ => do
    return .registered (← register declaration)
  | .registerRecord parent localName => do
    return .registered (← registerRecord parent localName)
  | .registerEnumeration parent localName => do
    return .registered (← registerEnumeration parent localName)
  | .addProperty id property => do
    return (← addProperty id property).elim .absent .appended
  | .setIdentity id index => do
    return (← setIdentity id index).elim .absent .designated
  | .addValue id value => do
    return (← addValue id value).elim .absent fun _ => .valueAdded

/-- An operation answers as it does on the declarations alone, does the same to them and keeps the
index in step; or it is refused as it is there, and nothing has been touched. -/
inductive Performs (indexed : IndexedRegistry) :
    EStateM.Result RegistryError IndexedRegistry Answer → Answer × Registry → Prop
  | answered {answer : Answer} {after : IndexedRegistry} (wellIndexed : after.WellIndexed) :
      Performs indexed (.ok answer after) (answer, after.toRegistry)
  | refused (error : RegistryError) :
      Performs indexed (.error error indexed) (.refused error, indexed.toRegistry)

/-- A registration is answered as it is settled in the list. -/
theorem Follows.performs {update : Update TypeId}
    {result : Except RegistryError (TypeId × Registry)}
    (follows : Follows indexed (update.run indexed) result) :
    Performs indexed ((do return Answer.registered (← update) : Update Answer).run indexed)
      (indexed.toRegistry.settle result) := by
  rw [EStateM.run_bind]
  generalize update.run indexed = made at follows
  cases follows with
  | registered wellIndexed => exact .answered wellIndexed
  | refused error => exact .refused error

/-- Every operation on the registry as it is kept is that on the declarations alone. -/
theorem performs_run (wellIndexed : indexed.WellIndexed) (operation : Operation) :
    Performs indexed ((perform operation).run indexed)
      (indexed.toRegistry.perform operation) := by
  cases operation with
  | register declaration => exact (follows_register wellIndexed declaration).performs
  | registerRecord parent localName =>
    exact (follows_registerRecord wellIndexed parent localName).performs
  | registerEnumeration parent localName =>
    exact (follows_registerEnumeration wellIndexed parent localName).performs
  | addProperty id property =>
    simp only [perform, addProperty, Registry.perform, record?_toRegistry, EStateM.run_bind,
      EStateM.run_get]
    cases indexed.record? id with
    | none => exact .answered wellIndexed
    | some record =>
      have made := toRegistry_onRecord indexed id (RecordType.addProperty property)
      exact made ▸ .answered (wellIndexed.onRecord id fun _ => rfl)
  | setIdentity id index =>
    have keeps (record : RecordType) : (record.setIdentity index).name = record.name := by
      rw [RecordType.setIdentity]
      split <;> rfl
    simp only [perform, setIdentity, Registry.perform, record?_toRegistry, EStateM.run_bind,
      EStateM.run_get]
    cases indexed.record? id with
    | none => exact .answered wellIndexed
    | some record =>
      have made := toRegistry_onRecord indexed id (RecordType.setIdentity index)
      exact made ▸ .answered (wellIndexed.onRecord id keeps)
  | addValue id value =>
    simp only [perform, addValue, Registry.perform, enumeration?_toRegistry, EStateM.run_bind,
      EStateM.run_get]
    cases indexed.enumeration? id with
    | none => exact .answered wellIndexed
    | some enumeration =>
      have made := toRegistry_onEnumeration indexed id (EnumType.addValue value)
      exact made ▸ .answered (wellIndexed.onEnumeration id fun _ => rfl)

/-- The registry that is left by a change, whether or not it is refused. -/
def left {α : Type} : EStateM.Result RegistryError IndexedRegistry α → IndexedRegistry
  | .ok _ after => after
  | .error _ after => after

/-- Whatever an operation leaves behind is well indexed and stands for what it leaves in the list.
-/
theorem Performs.left {result : EStateM.Result RegistryError IndexedRegistry Answer}
    {answer : Answer × Registry} (wellIndexed : indexed.WellIndexed)
    (performs : Performs indexed result answer) :
    (left result).WellIndexed ∧ (left result).toRegistry = answer.2 := by
  cases performs with
  | answered wellIndexed => exact ⟨wellIndexed, rfl⟩
  | refused error => exact ⟨wellIndexed, rfl⟩

/-- What an operation is refused for, it is refused for before anything is touched. -/
theorem eq_of_refused (wellIndexed : indexed.WellIndexed) {operation : Operation}
    {error : RegistryError} {after : IndexedRegistry}
    (refused : (perform operation).run indexed = .error error after) : after = indexed := by
  have performs := performs_run wellIndexed operation
  rw [refused] at performs
  generalize indexed.toRegistry.perform operation = result at performs
  cases performs
  rfl

/-- What is registered is registered among the declarations alone as well. -/
theorem perform_eq_of_run (wellIndexed : indexed.WellIndexed) {operation : Operation}
    {answer : Answer} {after : IndexedRegistry}
    (success : (perform operation).run indexed = .ok answer after) :
    indexed.toRegistry.perform operation = (answer, after.toRegistry) := by
  have performs := performs_run wellIndexed operation
  rw [success] at performs
  generalize indexed.toRegistry.perform operation = result at performs
  cases performs
  rfl

/-- A declaration is registered exactly if it is registered among the declarations alone. -/
theorem exists_run_register_iff (wellIndexed : indexed.WellIndexed) (declaration : Declaration) :
    (∃ id grown, (register declaration).run indexed = .ok id grown) ↔
      ∃ id grown, indexed.toRegistry.register declaration = .ok (id, grown) := by
  have follows := follows_register wellIndexed declaration
  generalize (register declaration).run indexed = result,
    indexed.toRegistry.register declaration = result' at follows
  cases follows <;> simp

/-- A declaration is registered exactly if no other one has its name and its parent is a record. -/
theorem exists_run_register_iff_fit (wellIndexed : indexed.WellIndexed)
    (declaration : Declaration) :
    (∃ id grown, (register declaration).run indexed = .ok id grown) ↔
      (∀ (id : TypeId) (earlier : Declaration), indexed.declarations[id]? = some earlier →
        earlier.name ≠ declaration.name) ∧
      ∀ parent, declaration.parent = some parent →
        ∃ record, indexed.declarations[parent]? = some (.record record) := by
  have found := getElem?_toRegistry indexed
  rw [exists_run_register_iff wellIndexed]
  simp only [register_eq_ok_iff]
  constructor
  · rintro ⟨_, _, isNew, inRecord, _⟩
    refine ⟨fun id earlier atId same => isNew (List.mem_map.mpr ⟨earlier, ?_, same⟩),
      fun parent nested => ?_⟩
    · exact List.mem_of_getElem? ((found id).trans atId)
    · obtain ⟨record, isRecord⟩ := inRecord parent nested
      exact ⟨record, found parent ▸ isRecord⟩
  · rintro ⟨isNew, inRecord⟩
    refine ⟨_, _, fun listed => ?_, fun parent nested => ?_, rfl, rfl⟩
    · obtain ⟨earlier, isEarlier, same⟩ := List.mem_map.mp listed
      obtain ⟨id, atId⟩ := List.mem_iff_getElem?.mp isEarlier
      exact isNew id earlier (found id ▸ atId) same
    · obtain ⟨record, isRecord⟩ := inRecord parent nested
      exact ⟨record, (found parent).trans isRecord⟩

/-- An index that no property has is not designated, and the registry stays as it is. -/
theorem run_setIdentity_outOfRange {id : TypeId} {record : RecordType} {index : Nat}
    (found : indexed.declarations[id]? = some (.record record))
    (outOfRange : record.properties.length ≤ index) :
    (setIdentity id index).run indexed = .ok (some false) indexed := by
  have isRecord : indexed.record? id = some record := by
    rw [IndexedRegistry.record?, found]
    rfl
  have unchanged : indexed.onRecord id (RecordType.setIdentity index) = indexed := by
    refine eq_of_toRegistry ?_ rfl
    rw [toRegistry_onRecord]
    exact onRecord_setIdentity_outOfRange (getElem?_toRegistry indexed id ▸ found) outOfRange
  simp only [setIdentity, EStateM.run_bind, EStateM.run_get, isRecord, EStateM.run_modify,
    unchanged, decide_eq_false (Nat.not_lt.mpr outOfRange)]
  rfl

end Update

namespace IndexedRegistry

open Update

variable {indexed : IndexedRegistry}

/-- The builtin types are registered as they are without an index. -/
theorem map_withBuiltins (primitives : List String) (blob : String) :
    (withBuiltins primitives blob).map toRegistry = Registry.withBuiltins primitives blob := by
  have start : empty.toRegistry = Registry.empty := rfl
  rw [withBuiltins, Registry.withBuiltins, ← start]
  obtain ⟨grown, made, _, same⟩ | ⟨error, reached, made, same⟩ :=
    run_registerAll wellIndexed_empty
      (primitives.map Declaration.primitive ++ [Declaration.blob blob])
  · rw [made, same]
    rfl
  · rw [made, same]
    rfl

/-- The index is right once the builtin types are registered. -/
theorem wellIndexed_of_withBuiltins {primitives : List String} {blob : String}
    (success : withBuiltins primitives blob = .ok indexed) : indexed.WellIndexed := by
  rw [withBuiltins] at success
  obtain ⟨grown, made, wellIndexed, _⟩ | ⟨error, reached, made, _⟩ :=
    run_registerAll wellIndexed_empty
      (primitives.map Declaration.primitive ++ [Declaration.blob blob])
  · rw [made] at success
    exact Except.ok.inj success ▸ wellIndexed
  · simp [made] at success

/-- The indexed registries that operations lead to, from the empty one or that of the builtin types,
whatever the operations come to. -/
inductive Reachable : IndexedRegistry → Prop
  | empty : Reachable IndexedRegistry.empty
  | builtins {primitives : List String} {blob : String} {indexed : IndexedRegistry}
      (registered : withBuiltins primitives blob = .ok indexed) : Reachable indexed
  | perform {indexed : IndexedRegistry} (before : Reachable indexed) (operation : Operation) :
      Reachable (left ((Update.perform operation).run indexed))

/-- In every indexed registry that operations lead to the index is in step, and they lead to its
declarations without an index. -/
theorem Reachable.toRegistry (reachable : indexed.Reachable) :
    indexed.WellIndexed ∧ indexed.toRegistry.Reachable := by
  induction reachable with
  | empty => exact ⟨wellIndexed_empty, .empty⟩
  | @builtins primitives blob indexed registered =>
    have plain : Registry.withBuiltins primitives blob = .ok indexed.toRegistry := by
      rw [← map_withBuiltins, registered]
      rfl
    exact ⟨wellIndexed_of_withBuiltins registered, .builtins plain⟩
  | perform _ operation ih =>
    obtain ⟨wellIndexed, reachable⟩ := ih
    obtain ⟨kept, same⟩ := (performs_run wellIndexed operation).left wellIndexed
    exact ⟨kept, same ▸ reachable.perform operation⟩

/-- Whatever operations lead to, the declarations, the index of their names and the links between
parents and children agree. A name is looked up exactly where its declaration stands, parents are
records in front of what is nested in them, the children of a record are what names it as its
parent, and identities are in range. A declaration is accepted exactly if its name is new and its
parent is a record. What is registered gets the next id, and nothing earlier moves. A refusal
leaves all of the registry as it was, and so does the designation of a property that does not
exist. -/
theorem coherent_of_reachable (reachable : indexed.Reachable) :
    ((indexed.declarations.toList.map Declaration.name).Nodup ∧
      ∀ (name : String) (id : TypeId), indexed.lookup name = .ok id ↔
        ∃ declaration, indexed.declarations[id]? = some declaration ∧ declaration.name = name) ∧
    (∀ (id : TypeId) (declaration : Declaration) (parent : TypeId),
      indexed.declarations[id]? = some declaration → declaration.parent = some parent →
      (∃ record, indexed.declarations[parent]? = some (.record record)) ∧ parent < id) ∧
    (∀ (id : TypeId) (record : RecordType), indexed.declarations[id]? = some (.record record) →
      record.children.Pairwise (· < ·) ∧
      (∀ child : TypeId, child ∈ record.children ↔ ∃ declaration,
        indexed.declarations[child]? = some declaration ∧ declaration.parent = some id) ∧
      ∀ index, record.identity = some index → index < record.properties.length) ∧
    (∀ declaration : Declaration,
      (∃ id grown, (register declaration).run indexed = .ok id grown) ↔
        (∀ (id : TypeId) (earlier : Declaration), indexed.declarations[id]? = some earlier →
          earlier.name ≠ declaration.name) ∧
        ∀ parent, declaration.parent = some parent →
          ∃ record, indexed.declarations[parent]? = some (.record record)) ∧
    (∀ operation id grown,
      (Update.perform operation).run indexed = .ok (.registered id) grown →
      id = indexed.declarations.size ∧ grown.declarations.size = indexed.declarations.size + 1 ∧
      ∀ (earlier : TypeId) (declaration : Declaration),
        indexed.declarations[earlier]? = some declaration →
        ∃ kept, grown.declarations[earlier]? = some kept ∧ kept.name = declaration.name ∧
          kept.kind = declaration.kind ∧ kept.parent = declaration.parent) ∧
    (∀ operation error after,
      (Update.perform operation).run indexed = .error error after → after = indexed) ∧
    ∀ (id : TypeId) (index : Nat) (record : RecordType),
      indexed.declarations[id]? = some (.record record) → record.properties.length ≤ index →
      (setIdentity id index).run indexed = .ok (some false) indexed := by
  obtain ⟨wellIndexed, plain⟩ := reachable.toRegistry
  have coherent := plain.coherent
  have found := getElem?_toRegistry indexed
  refine ⟨⟨coherent.distinct, fun name id => ?_⟩, fun id declaration parent atId nested => ?_,
    fun id record atId => ?_, exists_run_register_iff_fit wellIndexed,
    fun operation id grown registered => ?_, fun _ _ _ => eq_of_refused wellIndexed,
    fun _ _ _ => run_setIdentity_outOfRange⟩
  · rw [wellIndexed.lookup_eq, coherent.lookup_eq_ok_iff, found]
  · obtain ⟨⟨record, isRecord⟩, inFront⟩ :=
      coherent.parents id declaration parent (found id ▸ atId) nested
    exact ⟨⟨record, found parent ▸ isRecord⟩, inFront⟩
  · obtain ⟨increasing, children⟩ := coherent.children_record ((found id).trans atId)
    refine ⟨increasing, fun child => (children child).trans ?_,
      coherent.identity _ (List.mem_of_getElem? ((found id).trans atId))⟩
    rw [found]
  · obtain ⟨isNext, grows, keeps⟩ := keeps_of_perform (perform_eq_of_run wellIndexed registered)
    rw [size_toRegistry] at isNext grows
    refine ⟨isNext, grows, fun earlier declaration atId => ?_⟩
    obtain ⟨kept, isKept, named, kind, nested⟩ :=
      keeps.names earlier declaration ((found earlier).trans atId)
    exact ⟨kept, getElem?_toRegistry grown earlier ▸ isKept, named, kind, nested⟩

/-- Perform operations one after the other, whatever they come to. -/
def performAll (indexed : IndexedRegistry) (operations : List Operation) : IndexedRegistry :=
  operations.foldl (fun current operation => left ((Update.perform operation).run current)) indexed

/-- Operations lead from reachable registries to reachable ones. -/
theorem Reachable.performAll (reachable : indexed.Reachable) (operations : List Operation) :
    (indexed.performAll operations).Reachable := by
  induction operations generalizing indexed with
  | nil => exact reachable
  | cons operation rest ih => exact ih (reachable.perform operation)

/-- Operations do to the declarations what they do without an index. -/
theorem toRegistry_performAll (wellIndexed : indexed.WellIndexed) (operations : List Operation) :
    (indexed.performAll operations).toRegistry = indexed.toRegistry.performAll operations := by
  induction operations generalizing indexed with
  | nil => rfl
  | cons operation rest ih =>
    obtain ⟨kept, same⟩ := (performs_run wellIndexed operation).left wellIndexed
    exact (ih kept).trans (congrArg (Registry.performAll · rest) same)

/-- A record with a nested enumeration and an identity, where a second declaration of the name of
the enumeration has been refused. -/
def orderOperations : List Operation :=
  [.register (.primitive "int") (.primitive "int"), .register (.blob "blob") (.blob "blob"),
    .registerRecord none "Order", .registerEnumeration (some 2) "Status",
    .addProperty 2 ⟨2, "number", .primitive "int", .primitive, none, false⟩,
    .setIdentity 2 0, .registerRecord (some 2) "Status", .addValue 3 "open"]

/-- A name that is taken and an identity out of range are refused, and the registry is as before. -/
theorem coherent_of_reachable_orderOperations :
    (empty.performAll orderOperations).Reachable ∧
      (empty.performAll orderOperations).lookup "Order.Status" = .ok 3 ∧
      (Update.perform (.registerRecord (some 2) "Status")).run (empty.performAll orderOperations) =
        .error (.duplicateType "Order.Status") (empty.performAll orderOperations) ∧
      ∃ record, (empty.performAll orderOperations).declarations[2]? = some (.record record) ∧
        3 ∈ record.children ∧ record.identity = some 0 ∧
        (setIdentity 2 1).run (empty.performAll orderOperations) =
          .ok (some false) (empty.performAll orderOperations) := by
  have reachable := Reachable.empty.performAll orderOperations
  have plain := toRegistry_performAll wellIndexed_empty orderOperations
  have found (id : TypeId) := getElem?_toRegistry (empty.performAll orderOperations) id
  -- An index cannot be computed with here, so all that is evaluated are the declarations.
  generalize empty.performAll orderOperations = orders at *
  obtain ⟨⟨_, lookup⟩, _, children, _, _, unchanged, outOfRange⟩ := coherent_of_reachable reachable
  have follows := follows_registerRecord reachable.toRegistry.1 (some 2) "Status"
  have taken : orders.toRegistry.registerRecord (some 2) "Status" =
      .error (.duplicateType "Order.Status") := by
    rw [plain]
    decide
  have refused : ∃ after, (Update.perform (.registerRecord (some 2) "Status")).run orders =
      .error (.duplicateType "Order.Status") after := by
    rw [taken] at follows
    rw [Update.perform, EStateM.run_bind]
    generalize (registerRecord (some 2) "Status").run orders = result at follows
    cases follows
    exact ⟨orders, rfl⟩
  obtain ⟨after, refused⟩ := refused
  obtain rfl := unchanged _ _ _ refused
  have isOrder := found 2
  have isStatus := found 3
  rw [plain] at isOrder isStatus
  refine ⟨reachable, (lookup _ _).mpr ⟨_, isStatus.symm.trans rfl, by decide⟩, refused, _,
    isOrder.symm.trans rfl, ((children 2 _ (isOrder.symm.trans rfl)).2.1 3).mpr
      ⟨_, isStatus.symm.trans rfl, by decide⟩, by decide,
    outOfRange 2 1 _ (isOrder.symm.trans rfl) (by decide)⟩

end IndexedRegistry

end SchemaGraph
