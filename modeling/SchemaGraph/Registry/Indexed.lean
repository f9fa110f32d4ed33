import SchemaGraph.Registry
import Std.Data.HashMap

/-!
# The registry as it is kept

The registry is kept as an array of declarations, in which the id of a declaration is its place, and
an index of the ids by qualified name. Operations change the two in place, one step after the
other. Nothing takes a step back: a refusal leaves whatever the steps in front of it have made of
the registry.
-/

namespace SchemaGraph

/-- The declarations in order of registration, and their ids by qualified name. -/
structure IndexedRegistry where
  declarations : Array Declaration
  ids : Std.HashMap String TypeId

namespace IndexedRegistry

/-- The registry without declarations. -/
def empty : IndexedRegistry :=
  ⟨#[], ∅⟩

/-- The declarations without their index. -/
def toRegistry (indexed : IndexedRegistry) : Registry :=
  ⟨indexed.declarations.toList⟩

/-- The id that is entered for a qualified name, or the reason why there is none. -/
def lookup (indexed : IndexedRegistry) (name : String) : Except RegistryError TypeId :=
  match indexed.ids[name]? with
  | some id => .ok id
  | none => .error (.typeNotFound name none)

/-- The record of an id. -/
def record? (indexed : IndexedRegistry) (id : TypeId) : Option RecordType :=
  indexed.declarations[id]?.bind Declaration.record?

/-- The enumeration of an id. -/
def enumeration? (indexed : IndexedRegistry) (id : TypeId) : Option EnumType :=
  indexed.declarations[id]?.bind Declaration.enumeration?

/-- Append a declaration. -/
def push (declaration : Declaration) (indexed : IndexedRegistry) : IndexedRegistry :=
  { indexed with declarations := indexed.declarations.push declaration }

/-- Enter the id of a name. -/
def enter (name : String) (id : TypeId) (indexed : IndexedRegistry) : IndexedRegistry :=
  { indexed with ids := indexed.ids.insert name id }

/-- Change the record of an id, if it is one. -/
def onRecord (id : TypeId) (change : RecordType → RecordType) (indexed : IndexedRegistry) :
    IndexedRegistry :=
  { indexed with declarations := indexed.declarations.modify id (Declaration.onRecord change) }

/-- Change the enumeration of an id, if it is one. -/
def onEnumeration (id : TypeId) (change : EnumType → EnumType) (indexed : IndexedRegistry) :
    IndexedRegistry :=
  { indexed with
    declarations := indexed.declarations.modify id (Declaration.onEnumeration change) }

end IndexedRegistry

/-- A change of the registry that may be refused. A refusal comes with the registry that is reached
by then. -/
abbrev Update : Type → Type :=
  EStateM RegistryError IndexedRegistry

namespace Update

open IndexedRegistry

/-- Refuse a name that is entered already. -/
def refuseTaken (name : String) : Update Unit := do
  if (← get).ids.contains name then
    throw (.duplicateType name)

/-- Refuse a declaration whose parent is no record. -/
def refuseOutside (declaration : Declaration) : Update Unit := do
  match declaration.parent with
  | none => return
  | some parent =>
    match (← get).declarations[parent]? with
    | some (.record _) => return
    | some _ => throw (.notInRecord declaration.name)
    | none => throw (.unknownId parent)

/-- Append a declaration, enter its name and add it to the children of its parent. -/
def append (declaration : Declaration) : Update TypeId := do
  let id := (← get).declarations.size
  modify (push declaration)
  modify (enter declaration.name id)
  match declaration.parent with
  | none => return id
  | some parent =>
    modify (onRecord parent (RecordType.addChild id))
    return id

/-- Register a declaration under its qualified name. A taken name is refused first, then a parent
that is no record. -/
def register (declaration : Declaration) : Update TypeId := do
  refuseTaken declaration.name
  refuseOutside declaration
  append declaration

/-- The qualified name of what is declared under a local name inside a scope. -/
def qualify (scope : Option TypeId) (localName : String) : Update String := do
  match scope with
  | none => return localName
  | some id =>
    match (← get).declarations[id]? with
    | some declaration => return Name.within declaration.name localName
    | none => throw (.unknownId id)

/-- Register an empty record under a local name. -/
def registerRecord (parent : Option TypeId) (localName : String) : Update TypeId := do
  let name ← qualify parent localName
  register (.record (RecordType.shell name parent))

/-- Register an empty enumeration under a local name. -/
def registerEnumeration (parent : Option TypeId) (localName : String) : Update TypeId := do
  let name ← qualify parent localName
  register (.enumeration (EnumType.shell name parent))

/-- Register declarations one after the other, up to the first refusal. -/
def registerAll : List Declaration → Update Unit
  | [] => return
  | declaration :: rest => do
    let _ ← register declaration
    registerAll rest

/-- Append a property to the record of an id, and answer with its position. -/
def addProperty (id : TypeId) (property : Property) : Update (Option Nat) := do
  match (← get).record? id with
  | some record =>
    modify (onRecord id (RecordType.addProperty property))
    return some record.properties.length
  | none => return none

/-- Designate the property at a position as the identity of the record of an id, and answer whether
there is one. -/
def setIdentity (id : TypeId) (index : Nat) : Update (Option Bool) := do
  match (← get).record? id with
  | some record =>
    modify (onRecord id (RecordType.setIdentity index))
    return some (index < record.properties.length)
  | none => return none

/-- Append a value to the enumeration of an id, and answer with the count of its values. -/
def addValue (id : TypeId) (value : String) : Update (Option Nat) := do
  match (← get).enumeration? id with
  | some enumeration =>
    modify (onEnumeration id (EnumType.addValue value))
    return some (enumeration.values.length + 1)
  | none => return none

end Update

/-- The registry of the builtin types: the primitives, then the blob. -/
def IndexedRegistry.withBuiltins (primitives : List String) (blob : String) :
    Except RegistryError IndexedRegistry :=
  match (Update.registerAll
    (primitives.map Declaration.primitive ++ [Declaration.blob blob])).run .empty with
  | .ok _ registered => .ok registered
  | .error error _ => .error error

end SchemaGraph
