import SchemaGraph.Registry

/-!
# Resolving type expressions

The type of a property arrives as the flat sequence of its markers and names. It is read from
left to right: a marker of a container is followed by the types of its elements, the marker of
a name by the name, which is resolved from the record that the property belongs to. The first
fault ends the reading.
-/

namespace SchemaGraph.Registry

/-- The type that a name denotes when it is referred to from inside a scope. -/
def typeNamed (registry : Registry) (scope : Option TypeId) (name : String) :
    Except CompileError SchemaType :=
  match registry.resolve scope name with
  | .ok id =>
    match registry.typeOf id with
    | .ok type => .ok type
    | .error error => .error (.ofRegistry error)
  | .error error => .error (.ofRegistry error)

/-- A type read from the front of a sequence, and what is left of it, which is shorter. -/
abbrev Reading (tokens : List Node) :=
  Except CompileError (SchemaType × { rest : List Node // rest.length < tokens.length })

/-- Read the name behind its marker. -/
def readName (registry : Registry) (scope : Option TypeId) (marker : Node) :
    (tokens : List Node) → Reading (marker :: tokens)
  | [] => .error (.malformedType .endedBeforeName)
  | name :: rest =>
    if name.kind = .token then
      match registry.typeNamed scope name.text with
      | .ok type => .ok (type, ⟨rest, by simp only [List.length_cons]; omega⟩)
      | .error error => .error error
    else .error (.malformedType (.nameExpected name.kind))

/-- Read the type at the front of a sequence. -/
def readType (registry : Registry) (scope : Option TypeId) :
    (tokens : List Node) → Reading tokens
  | [] => .error (.malformedType .endedBeforeType)
  | marker :: tokens =>
    match marker.kind with
    | .typePrimitive => registry.readName scope marker tokens
    | .typeList =>
      match registry.readType scope tokens with
      | .ok (element, ⟨rest, h⟩) =>
        .ok (.list element, ⟨rest, by simp only [List.length_cons]; omega⟩)
      | .error error => .error error
    | .typeSet =>
      match registry.readType scope tokens with
      | .ok (element, ⟨rest, h⟩) =>
        .ok (.set element, ⟨rest, by simp only [List.length_cons]; omega⟩)
      | .error error => .error error
    | .typeMap =>
      match registry.readType scope tokens with
      | .ok (key, ⟨middle, h⟩) =>
        match registry.readType scope middle with
        | .ok (value, ⟨rest, h'⟩) =>
          .ok (.map key value, ⟨rest, by simp only [List.length_cons]; omega⟩)
        | .error error => .error error
      | .error error => .error error
    | kind => .error (.malformedType (.unexpected kind marker.text))
termination_by tokens => tokens.length
decreasing_by
  all_goals simp only [List.length_cons]; omega

/-- Resolve the type expression at the front of a sequence; what is left are options and
comments. -/
def resolveType (registry : Registry) (scope : Option TypeId) (tokens : List Node) :
    Except CompileError (SchemaType × List Node) :=
  match registry.readType scope tokens with
  | .ok (type, rest) => .ok (type, rest.val)
  | .error error => .error error

end SchemaGraph.Registry
