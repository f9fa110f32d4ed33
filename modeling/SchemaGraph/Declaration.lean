import SchemaGraph.CompileError
import SchemaGraph.Name

/-!
# Types, properties and declarations

A declaration is a builtin or a type declared by a schema. Declarations refer to one another
by id only, so the graph they form may be cyclic while the values are finite.
-/

namespace SchemaGraph

/-- The type of a property. -/
inductive SchemaType
  | primitive (name : String)
  | blob
  | list (element : SchemaType)
  | set (element : SchemaType)
  | map (key value : SchemaType)
  | enumeration (id : TypeId)
  | record (id : TypeId)
deriving DecidableEq, Repr

/-- The type is a list, a set or a map. -/
def SchemaType.isContainer : SchemaType → Bool
  | list _ => true
  | set _ => true
  | map _ _ => true
  | _ => false

/-- How a property is represented, chosen by its type. -/
inductive PropertyKind
  | primitive
  | blob
  /-- The values are those of the enumeration of this qualified name. -/
  | enumeration (name : String)
  | record
  | list
  | set
  | map
deriving DecidableEq, Repr

/-- A property of a record. -/
structure Property where
  /-- The record that it belongs to. -/
  owner : TypeId
  name : String
  type : SchemaType
  kind : PropertyKind
  comment : Option String
  /-- The storage key is in lowerCamelCase. -/
  camelCaseKeys : Bool
deriving DecidableEq, Repr

/-- The key that the property is stored under. -/
def Property.key (property : Property) : String :=
  if property.camelCaseKeys then Name.lowerCamel property.name else property.name

/-- A record type. -/
structure RecordType where
  /-- The qualified name. -/
  name : String
  /-- The record that it is nested in. -/
  parent : Option TypeId
  comment : Option String
  properties : List Property
  /-- The position of the identity property. -/
  identity : Option Nat
  /-- The records and enumerations nested in it, in order of declaration. -/
  children : List TypeId
deriving DecidableEq, Repr

namespace RecordType

/-- A record of which only name and parent are known. -/
def shell (name : String) (parent : Option TypeId) : RecordType :=
  ⟨name, parent, none, [], none, []⟩

/-- The first property of a name. -/
def property? (record : RecordType) (name : String) : Option Property :=
  record.properties.find? (·.name == name)

/-- Append a property. -/
def addProperty (property : Property) (record : RecordType) : RecordType :=
  { record with properties := record.properties ++ [property] }

/-- Designate the property at a position as the identity, if there is one. -/
def setIdentity (index : Nat) (record : RecordType) : RecordType :=
  if index < record.properties.length then { record with identity := some index } else record

/-- The identity property. -/
def identityProperty? (record : RecordType) : Option Property :=
  record.identity.bind (record.properties[·]?)

/-- Append a nested declaration. -/
def addChild (child : TypeId) (record : RecordType) : RecordType :=
  { record with children := record.children ++ [child] }

/-- Set the comment. -/
def setComment (comment : String) (record : RecordType) : RecordType :=
  { record with comment := some comment }

end RecordType

/-- An enumeration. -/
structure EnumType where
  /-- The qualified name. -/
  name : String
  /-- The record that it is nested in. -/
  parent : Option TypeId
  comment : Option String
  /-- The values in order of declaration, repeated ones included. -/
  values : List String
deriving DecidableEq, Repr

namespace EnumType

/-- An enumeration of which only name and parent are known. -/
def shell (name : String) (parent : Option TypeId) : EnumType :=
  ⟨name, parent, none, []⟩

/-- Append a value. -/
def addValue (value : String) (enumeration : EnumType) : EnumType :=
  { enumeration with values := enumeration.values ++ [value] }

/-- The enumeration has this value. -/
def hasValue (enumeration : EnumType) (value : String) : Bool :=
  enumeration.values.contains value

/-- Set the comment. -/
def setComment (comment : String) (enumeration : EnumType) : EnumType :=
  { enumeration with comment := some comment }

end EnumType

/-- What kind of thing is declared. -/
inductive DeclarationKind
  | primitive
  | blob
  | record
  | enumeration
deriving DecidableEq, Repr

/-- A declaration: a builtin scalar, the builtin binary payload, a record or an enumeration. -/
inductive Declaration
  | primitive (name : String)
  | blob (name : String)
  | record (type : RecordType)
  | enumeration (type : EnumType)
deriving DecidableEq, Repr

namespace Declaration

/-- The qualified name. -/
def name : Declaration → String
  | primitive name => name
  | blob name => name
  | record type => type.name
  | enumeration type => type.name

/-- The kind of the declaration. -/
def kind : Declaration → DeclarationKind
  | primitive _ => .primitive
  | blob _ => .blob
  | record _ => .record
  | enumeration _ => .enumeration

/-- The record that the declaration is nested in. -/
def parent : Declaration → Option TypeId
  | record type => type.parent
  | enumeration type => type.parent
  | _ => none

/-- The declaration comes from a schema. -/
def isUser : Declaration → Bool
  | record _ => true
  | enumeration _ => true
  | _ => false

/-- The record type that is declared. -/
def record? : Declaration → Option RecordType
  | record type => some type
  | _ => none

/-- The enumeration that is declared. -/
def enumeration? : Declaration → Option EnumType
  | enumeration type => some type
  | _ => none

/-- Change the record type that is declared, if it is one. -/
def onRecord (change : RecordType → RecordType) : Declaration → Declaration
  | record type => record (change type)
  | other => other

/-- Change the enumeration that is declared, if it is one. -/
def onEnumeration (change : EnumType → EnumType) : Declaration → Declaration
  | enumeration type => enumeration (change type)
  | other => other

end Declaration

end SchemaGraph
