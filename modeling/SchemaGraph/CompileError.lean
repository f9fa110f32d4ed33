import SchemaGraph.Diagnostic

/-!
# Errors of a compile

What can go wrong while a schema is compiled, stated by cause. The wording of every cause is
in this module only, and so is the diagnostic that an error becomes.
-/

namespace SchemaGraph

/-- The position of a declaration in registration order. -/
abbrev TypeId := Nat

/-- What the registry of types refuses. -/
inductive RegistryError
  /-- The name is taken. -/
  | duplicateType (name : String)
  /-- Nothing has this name, seen from the scope. -/
  | typeNotFound (name : String) (scope : Option String)
  /-- The parent of the declaration is no record. -/
  | notInRecord (name : String)
  /-- No declaration has this id. -/
  | unknownId (id : TypeId)
deriving DecidableEq, Repr

/-- What follows a name that was not found. -/
def scopeSuffix : Option String → String
  | some scope => " (referenced from " ++ scope ++ ")"
  | none => ""

/-- The wording of a refusal. -/
def RegistryError.message : RegistryError → String
  | duplicateType name => "Duplicate type: " ++ name
  | typeNotFound name scope => "Type not found: " ++ name ++ scopeSuffix scope
  | notInRecord name => "Type " ++ name ++ " is not declared inside a record"
  | unknownId id => "Type id " ++ toString id ++ " is not registered"

/-- How a node or a declaration fails to have the shape expected of it. -/
inductive StructuralFault
  /-- A declaration has no first child. -/
  | declarationWithoutName (kind : NodeKind)
  /-- The first child of a declaration is no token. -/
  | declarationNameExpected (found : NodeKind)
  /-- The name of a declaration is empty, dotted or has a blank. -/
  | invalidDeclarationName (name : String)
  /-- A property has no first child. -/
  | propertyWithoutName
  /-- A node is read as an option but is none. -/
  | optionExpected (found : NodeKind)
  /-- An option has no first child. -/
  | optionWithoutName
  /-- A declaration's parent is no record. -/
  | notInRecord (name : String)
  /-- The shell to fill with values is no enumeration. -/
  | shellNotEnumeration
  /-- The shell to fill with a property is no record. -/
  | ownerNotRecord (owner : TypeId)
  /-- No declaration has this id. -/
  | unknownId (id : TypeId)
  /-- Any other fault, in words. -/
  | described (message : String)
deriving DecidableEq, Repr

/-- The wording of a structural fault. -/
def StructuralFault.message : StructuralFault → String
  | declarationWithoutName kind => kind.label ++ " declaration has no name"
  | declarationNameExpected found => "Expected a declaration name, found " ++ found.label
  | invalidDeclarationName name => "Invalid declaration name '" ++ name ++ "'"
  | propertyWithoutName => "Property has no name"
  | optionExpected found => "Expected an option, found " ++ found.label
  | optionWithoutName => "Option has no name"
  | notInRecord name => name ++ " is not declared inside a record"
  | shellNotEnumeration => "Enum shell is not an enum"
  | ownerNotRecord owner => "Property owner " ++ toString owner ++ " is not a record"
  | unknownId id => "Type id " ++ toString id ++ " is not registered"
  | described message => message

/-- How a type expression is malformed. -/
inductive MalformedType
  /-- The sequence ends where a type should begin. -/
  | endedBeforeType
  /-- The sequence ends behind the marker of a name. -/
  | endedBeforeName
  /-- The marker of a name is followed by something else. -/
  | nameExpected (found : NodeKind)
  /-- A type cannot begin with this node. -/
  | unexpected (found : NodeKind) (text : String)
  /-- Any other fault, in words. -/
  | described (message : String)
deriving DecidableEq, Repr

/-- The wording of a malformed type expression. -/
def MalformedType.message : MalformedType → String
  | endedBeforeType => "expression ended where a type was expected"
  | endedBeforeName => "expression ended where a type name was expected"
  | nameExpected found => "expected a type name, found " ++ found.label
  | unexpected found text =>
    "unexpected " ++ found.label ++ " '" ++ text ++ "' where a type was expected"
  | described message => message

/-- An error of a compile. -/
inductive CompileError
  | structuralParse (fault : StructuralFault) (position : Position)
  | duplicateType (name : String)
  | typeNotFound (name : String) (scope : Option String)
  | malformedType (fault : MalformedType)
  | literalParse (text : String)
  /-- The error arose while the property of this owner was filled in. -/
  | inProperty (owner property : String) (source : CompileError)
deriving DecidableEq, Repr

namespace CompileError

/-- The error of a node that does not have the expected shape. -/
def atNode (node : Node) (fault : StructuralFault) : CompileError :=
  structuralParse fault node.position

/-- A refusal of the registry as an error of the compile. -/
def ofRegistry : RegistryError → CompileError
  | .duplicateType name => duplicateType name
  | .typeNotFound name scope => typeNotFound name scope
  | .notInRecord name => structuralParse (.notInRecord name) Position.unknown
  | .unknownId id => structuralParse (.unknownId id) Position.unknown

/-- The error under all properties that it passed through. -/
def root : CompileError → CompileError
  | inProperty _ _ source => source.root
  | error => error

/-- The wording of an error. -/
def message : CompileError → String
  | structuralParse fault _ => "Unexpected schema structure: " ++ fault.message
  | duplicateType name => "Duplicate type: " ++ name
  | typeNotFound name scope => "Type not found: " ++ name ++ scopeSuffix scope
  | malformedType fault => "Malformed type expression: " ++ fault.message
  | literalParse text => "Could not parse literal: " ++ text
  | inProperty owner property source =>
    "In property " ++ owner ++ "." ++ property ++ ": " ++ source.message

/-- The diagnostic code of an error, which is that of its root. -/
def code : CompileError → DiagnosticCode
  | structuralParse _ _ => .structuralParseError
  | duplicateType _ => .duplicateType
  | typeNotFound _ _ => .typeNotFound
  | malformedType _ => .malformedTypeExpression
  | literalParse _ => .literalParseError
  | inProperty _ _ source => source.code

/-- The place of an error, which is known of structural errors only. -/
def position : CompileError → Position
  | structuralParse _ position => position
  | inProperty _ _ source => source.position
  | _ => Position.unknown

/-- The scope of an error: the owner of the outermost property, else the scope at hand. -/
def scopeWithin (scope : Option String) : CompileError → Option String
  | inProperty owner _ _ => some owner
  | _ => scope

/-- The diagnostic of an error that arose in a scope. -/
def toDiagnostic (error : CompileError) (scope : Option String) : Diagnostic :=
  Diagnostic.make error.code .error error.message ⟨error.scopeWithin scope, error.position⟩

end CompileError

end SchemaGraph
