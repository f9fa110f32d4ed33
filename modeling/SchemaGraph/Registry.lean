import SchemaGraph.Declaration

/-!
# The registry of types

The registry holds all declarations in the order of their registration. The position of a
declaration is its id. Names are unique, and a nested declaration is appended to the children
of its parent. Looking up an id that no declaration has is an error of its own.
-/

namespace SchemaGraph

/-- The declarations in order of registration. -/
structure Registry where
  declarations : List Declaration
deriving DecidableEq, Repr

namespace Registry

/-- The registry without declarations. -/
def empty : Registry :=
  ⟨[]⟩

/-- The count of declarations, which is the next id. -/
def size (registry : Registry) : Nat :=
  registry.declarations.length

/-- The declaration of an id. -/
def get (registry : Registry) (id : TypeId) : Except RegistryError Declaration :=
  match registry.declarations[id]? with
  | some declaration => .ok declaration
  | none => .error (.unknownId id)

/-- The record of an id. -/
def record? (registry : Registry) (id : TypeId) : Option RecordType :=
  registry.declarations[id]?.bind Declaration.record?

/-- The enumeration of an id. -/
def enumeration? (registry : Registry) (id : TypeId) : Option EnumType :=
  registry.declarations[id]?.bind Declaration.enumeration?

/-- The qualified name of an id. -/
def nameOf (registry : Registry) (id : TypeId) : Except RegistryError String :=
  (registry.get id).map Declaration.name

/-- The qualified name of an optional scope. -/
def scopeName (registry : Registry) : Option TypeId → Except RegistryError (Option String)
  | none => .ok none
  | some id => (registry.nameOf id).map some

/-- The id of the declaration of a qualified name. -/
def find? (registry : Registry) (name : String) : Option TypeId :=
  registry.declarations.findIdx? (·.name == name)

/-- The id of the declaration of a qualified name, or the reason why there is none. -/
def lookup (registry : Registry) (name : String) : Except RegistryError TypeId :=
  match registry.find? name with
  | some id => .ok id
  | none => .error (.typeNotFound name none)

/-- The qualified name of what is declared under a local name inside a scope. -/
def qualify (registry : Registry) (scope : Option TypeId) (localName : String) :
    Except RegistryError String :=
  (registry.scopeName scope).map fun
    | some scope => Name.within scope localName
    | none => localName

/-- Change the record of an id, if it is one. -/
def onRecord (registry : Registry) (id : TypeId) (change : RecordType → RecordType) :
    Registry :=
  ⟨registry.declarations.modify id (Declaration.onRecord change)⟩

/-- Change the enumeration of an id, if it is one. -/
def onEnumeration (registry : Registry) (id : TypeId) (change : EnumType → EnumType) :
    Registry :=
  ⟨registry.declarations.modify id (Declaration.onEnumeration change)⟩

/-- Append a declaration. -/
def push (registry : Registry) (declaration : Declaration) : Registry :=
  ⟨registry.declarations ++ [declaration]⟩

/-- Register a declaration under its qualified name. A taken name is refused first, then a
parent that is no record. -/
def register (registry : Registry) (declaration : Declaration) :
    Except RegistryError (TypeId × Registry) :=
  if (registry.find? declaration.name).isSome then .error (.duplicateType declaration.name)
  else
    match declaration.parent with
    | none => .ok (registry.size, registry.push declaration)
    | some parent =>
      match registry.get parent with
      | .ok (.record _) =>
        .ok (registry.size,
          (registry.onRecord parent (RecordType.addChild registry.size)).push declaration)
      | .ok _ => .error (.notInRecord declaration.name)
      | .error error => .error error

/-- Register an empty record under a local name. -/
def registerRecord (registry : Registry) (parent : Option TypeId) (localName : String) :
    Except RegistryError (TypeId × Registry) :=
  match registry.qualify parent localName with
  | .ok name => registry.register (.record (RecordType.shell name parent))
  | .error error => .error error

/-- Register an empty enumeration under a local name. -/
def registerEnumeration (registry : Registry) (parent : Option TypeId) (localName : String) :
    Except RegistryError (TypeId × Registry) :=
  match registry.qualify parent localName with
  | .ok name => registry.register (.enumeration (EnumType.shell name parent))
  | .error error => .error error

/-- Register declarations one after the other, up to the first refusal. -/
def registerAll (registry : Registry) : List Declaration → Except RegistryError Registry
  | [] => .ok registry
  | declaration :: rest =>
    match registry.register declaration with
    | .ok (_, grown) => grown.registerAll rest
    | .error error => .error error

/-- The registry of the builtin types: the primitives, then the blob. -/
def withBuiltins (primitives : List String) (blob : String) : Except RegistryError Registry :=
  empty.registerAll (primitives.map Declaration.primitive ++ [Declaration.blob blob])

/-- The names of a declaration and of the records around it, innermost first. No declaration is
nested deeper than there are declarations. -/
def namesOutward (registry : Registry) : Nat → TypeId → List String
  | 0, _ => []
  | depth + 1, id =>
    match registry.declarations[id]? with
    | some declaration =>
      declaration.name ::
        match declaration.parent with
        | some parent => registry.namesOutward depth parent
        | none => []
    | none => []

/-- The qualified names that a reference may stand for, in order of preference: inside the
scope, inside each record around it, and by itself. -/
def candidates (registry : Registry) (scope : Option TypeId) (reference : String) :
    List String :=
  match scope with
  | some id => (registry.namesOutward registry.size id).map (Name.within · reference) ++ [reference]
  | none => [reference]

/-- The id that a reference from inside a scope denotes. -/
def resolve (registry : Registry) (scope : Option TypeId) (reference : String) :
    Except RegistryError TypeId :=
  match registry.scopeName scope with
  | .ok name =>
    match (registry.candidates scope reference).findSome? registry.find? with
    | some id => .ok id
    | none => .error (.typeNotFound reference name)
  | .error error => .error error

/-- The type that a reference to a declaration denotes. -/
def typeOf (registry : Registry) (id : TypeId) : Except RegistryError SchemaType :=
  (registry.get id).map fun
    | .primitive name => .primitive name
    | .blob _ => .blob
    | .record _ => .record id
    | .enumeration _ => .enumeration id

/-- The declarations with their ids. -/
def entries (registry : Registry) : List (TypeId × Declaration) :=
  registry.declarations.mapIdx Prod.mk

/-- The declarations of a kind, in order of registration. -/
def ofKind (registry : Registry) (kind : DeclarationKind) : List (TypeId × Declaration) :=
  registry.entries.filter (·.2.kind == kind)

/-- The records and enumerations, in order of registration. -/
def userTypes (registry : Registry) : List (TypeId × Declaration) :=
  registry.entries.filter (·.2.isUser)

/-- The name of the blob type: that of the first blob, or the usual word for one. -/
def blobName (registry : Registry) : String :=
  match registry.declarations.find? (·.kind == .blob) with
  | some declaration => declaration.name
  | none => "blob"

/-- A type as it is written in a schema. -/
def describe (registry : Registry) : SchemaType → Except RegistryError String
  | .primitive name => .ok name
  | .blob => .ok registry.blobName
  | .list element => (registry.describe element).map fun e => "list<" ++ e ++ ">"
  | .set element => (registry.describe element).map fun e => "set<" ++ e ++ ">"
  | .map key value =>
    match registry.describe key, registry.describe value with
    | .ok k, .ok v => .ok ("map<" ++ k ++ ", " ++ v ++ ">")
    | .error error, _ => .error error
    | .ok _, .error error => .error error
  | .enumeration id => registry.nameOf id
  | .record id => registry.nameOf id

/-- The representation of a property of a type. -/
def kindFor (registry : Registry) : SchemaType → Except RegistryError PropertyKind
  | .primitive _ => .ok .primitive
  | .blob => .ok .blob
  | .list _ => .ok .list
  | .set _ => .ok .set
  | .map _ _ => .ok .map
  | .enumeration id => (registry.nameOf id).map .enumeration
  | .record _ => .ok .record

/-- The property of a type, represented as its type asks for. -/
def makeProperty (registry : Registry) (camelCaseKeys : Bool) (owner : TypeId) (name : String)
    (type : SchemaType) (comment : Option String) : Except RegistryError Property :=
  (registry.kindFor type).map fun kind => ⟨owner, name, type, kind, comment, camelCaseKeys⟩

end Registry

end SchemaGraph
