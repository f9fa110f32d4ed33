import SchemaGraph.PropertyOption
import SchemaGraph.Resolution
import SchemaGraph.Shells

/-!
# The second pass: contents

The shells are filled by walking the declarations again, this time only from the top level and
from record to member: properties, values, comments and identity designations. The pass stops
at the first fault. A shell that is met twice belongs to two declarations of one name, which is
a fault of the second.
-/

namespace SchemaGraph

/-- What the second pass has done so far. -/
structure Contents where
  registry : Registry
  /-- The shells that have been met. -/
  filled : List TypeId
deriving DecidableEq, Repr

/-- The state in which a fault stopped the second pass. -/
structure Stopped where
  error : CompileError
  contents : Contents
deriving DecidableEq, Repr

/-- What stands behind the type of a property. -/
structure Extras where
  /-- The text of the last comment. -/
  comment : Option String
  /-- An option designates the property as the identity. -/
  identity : Bool
deriving DecidableEq, Repr

namespace Extras

/-- Nothing stands behind the type. -/
def none : Extras :=
  ⟨.none, false⟩

/-- Read options and comments, from left to right; other nodes are passed over. -/
def read : List Node → Extras → Except CompileError Extras
  | [], extras => .ok extras
  | node :: rest, extras =>
    match node.kind with
    | .option =>
      match PropertyOption.ofNode node with
      | .ok option => read rest { extras with identity := extras.identity || option.isIdentity }
      | .error error => .error error
    | .comment => read rest { extras with comment := some node.commentText }
    | _ => read rest extras

end Extras

namespace Registry

/-- Read a property of a record from the nodes behind its name, and whether it is the identity
of the record. -/
def readProperty (registry : Registry) (camelCaseKeys : Bool) (owner : TypeId) (name : String)
    (nodes : List Node) : Except CompileError (Property × Bool) :=
  match registry.resolveType (some owner) nodes with
  | .error error => .error error
  | .ok (type, rest) =>
    match Extras.read rest Extras.none with
    | .error error => .error error
    | .ok extras =>
      match registry.makeProperty camelCaseKeys owner name type extras.comment with
      | .error error => .error (.ofRegistry error)
      | .ok property => .ok (property, extras.identity)

/-- An error that arose in a property of a record. -/
def inProperty (registry : Registry) (owner : TypeId) (property : String)
    (error : CompileError) : CompileError :=
  match registry.nameOf owner with
  | .ok name => .inProperty name property error
  | .error unknown => .ofRegistry unknown

/-- Add the values of an enumeration; a comment among them is its comment. -/
def fillValues (registry : Registry) (id : TypeId) : List Node → Registry
  | [] => registry
  | member :: rest =>
    let change : EnumType → EnumType :=
      if member.kind = .comment then .setComment member.commentText else .addValue member.text
    (registry.onEnumeration id change).fillValues id rest

end Registry

/-- A change of the registry that a fault may stop. A fault comes with the registry that is reached
by then: nothing that was changed before it is taken back. -/
abbrev Change : Type → Type :=
  EStateM CompileError Registry

namespace Change

/-- Read something off the registry. -/
def reading {α : Type} (read : Registry → Except CompileError α) : Change α := do
  match read (← get) with
  | .ok value => return value
  | .error error => throw error

/-- Word the fault of a change anew, in view of the registry that is reached. -/
def mapError {α : Type} (word : Registry → CompileError → CompileError) (change : Change α) :
    Change α := fun registry =>
  match change registry with
  | .ok value reached => .ok value reached
  | .error error reached => .error (word reached error) reached

/-- Append a property to its owner, and then designate it as the identity if it is. -/
def addProperty (property : Property) (identity : Bool) : Change Unit := do
  match (← get).record? property.owner with
  | some record =>
    modify (·.onRecord property.owner (RecordType.addProperty property))
    if identity then
      modify (·.onRecord property.owner (RecordType.setIdentity record.properties.length))
  | none => throw (.structuralParse (.ownerNotRecord property.owner) Position.unknown)

/-- Add the property of a node to a record: it is read, and then appended to its owner. -/
def fillProperty (camelCaseKeys : Bool) (owner : TypeId) (node : Node) : Change Unit :=
  match node.children with
  | [] => throw (.atNode node .propertyWithoutName)
  | name :: nodes =>
    Change.mapError (·.inProperty owner name.text) do
      let (property, identity) ←
        Change.reading (·.readProperty camelCaseKeys owner name.text nodes)
      addProperty property identity

end Change

namespace Contents

/-- Find the shell of a declaration and mark it as met. -/
def claim (contents : Contents) (parent : Option TypeId) (kind : DeclarationKind)
    (name : Node) : Except CompileError (TypeId × Contents) :=
  match declarationName name with
  | .error error => .error error
  | .ok text =>
    match contents.registry.qualify parent text with
    | .error error => .error (.ofRegistry error)
    | .ok qualified =>
      match contents.registry.lookup qualified with
      | .error error => .error (.ofRegistry error)
      | .ok id =>
        match contents.registry.get id with
        | .error error => .error (.ofRegistry error)
        | .ok declaration =>
          if declaration.kind ≠ kind ∨ id ∈ contents.filled then
            .error (.duplicateType qualified)
          else .ok (id, { contents with filled := contents.filled ++ [id] })

/-- Go on with another registry. -/
def withRegistry (contents : Contents) (registry : Registry) : Contents :=
  { contents with registry }

/-- Fill in the enumeration of a node. -/
def fillEnumeration (parent : Option TypeId) (node : Node) (contents : Contents) :
    Except Stopped Contents :=
  match node.children with
  | [] => .error ⟨.atNode node (.declarationWithoutName node.kind), contents⟩
  | name :: members =>
    match contents.claim parent .enumeration name with
    | .error error => .error ⟨error, contents⟩
    | .ok (id, claimed) =>
      match claimed.registry.enumeration? id with
      | none => .error ⟨.atNode node .shellNotEnumeration, claimed⟩
      | some _ => .ok (claimed.withRegistry (claimed.registry.fillValues id members))

mutual
/-- Fill in the record of a node. -/
def fillRecord (camelCaseKeys : Bool) (parent : Option TypeId) :
    Node → Contents → Except Stopped Contents
  | ⟨kind, text, [], position⟩, contents =>
    .error ⟨.atNode ⟨kind, text, [], position⟩ (.declarationWithoutName kind), contents⟩
  | ⟨_, _, name :: members, _⟩, contents =>
    match contents.claim parent .record name with
    | .error error => .error ⟨error, contents⟩
    | .ok (id, claimed) => fillMembers camelCaseKeys id members claimed
/-- Fill in the members of a record, up to the first fault. -/
def fillMembers (camelCaseKeys : Bool) (owner : TypeId) :
    List Node → Contents → Except Stopped Contents
  | [], contents => .ok contents
  | member :: rest, contents =>
    match member.kind with
    | .record =>
      match fillRecord camelCaseKeys (some owner) member contents with
      | .ok filled => fillMembers camelCaseKeys owner rest filled
      | .error stopped => .error stopped
    | .enumeration =>
      match fillEnumeration (some owner) member contents with
      | .ok filled => fillMembers camelCaseKeys owner rest filled
      | .error stopped => .error stopped
    | .property =>
      match (Change.fillProperty camelCaseKeys owner member).run contents.registry with
      | .ok _ registry => fillMembers camelCaseKeys owner rest (contents.withRegistry registry)
      | .error error registry => .error ⟨error, contents.withRegistry registry⟩
    | .comment =>
      fillMembers camelCaseKeys owner rest
        (contents.withRegistry
          (contents.registry.onRecord owner (.setComment member.commentText)))
    | _ => fillMembers camelCaseKeys owner rest contents
end

/-- Fill in a node of the top level. -/
def fillTop (camelCaseKeys : Bool) (node : Node) (contents : Contents) :
    Except Stopped Contents :=
  match node.kind with
  | .record => fillRecord camelCaseKeys none node contents
  | .enumeration => fillEnumeration none node contents
  | _ => .ok contents

/-- Where the second pass stopped: the node of the top level and the state. -/
structure Halt where
  node : Node
  stopped : Stopped

/-- Fill in the nodes of the top level, up to the first fault. -/
def fillAll (camelCaseKeys : Bool) : Schema → Contents → Except Halt Contents
  | [], contents => .ok contents
  | node :: rest, contents =>
    match fillTop camelCaseKeys node contents with
    | .ok filled => fillAll camelCaseKeys rest filled
    | .error stopped => .error ⟨node, stopped⟩

/-- The second pass over a schema, given the registry of its shells. -/
def ofSchema (camelCaseKeys : Bool) (shells : Registry) (schema : Schema) :
    Except Halt Contents :=
  fillAll camelCaseKeys schema ⟨shells, []⟩

end Contents

end SchemaGraph
