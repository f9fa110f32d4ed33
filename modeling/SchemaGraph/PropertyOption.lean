import SchemaGraph.CompileError
import SchemaGraph.Literal

/-!
# Options of properties

An option has a name and named parameters. A single argument that is no pair is stored under
the name `value`; otherwise each pair of a name and a value is a parameter, a later one
replacing an earlier one of the same name, and other arguments are passed over.
-/

namespace SchemaGraph

/-- An option of a property. -/
structure PropertyOption where
  name : String
  /-- The parameters, no two of the same name. -/
  parameters : List (String × Literal)
deriving DecidableEq, Repr

namespace PropertyOption

/-- The option that designates the identity property of a record. -/
def identityName : String := "identity"

/-- The parameter that a single positional argument is stored under. -/
def positionalName : String := "value"

/-- Set a parameter, replacing its old value. -/
def setParameter (name : String) (value : Literal) :
    List (String × Literal) → List (String × Literal)
  | [] => [(name, value)]
  | (key, old) :: rest =>
    if key = name then (name, value) :: rest else (key, old) :: setParameter name value rest

/-- Decode the text of an argument. -/
def decode (text : String) : Except CompileError Literal :=
  match Literal.ofText? text with
  | some literal => .ok literal
  | none => .error (.literalParse text)

/-- The name and the value node of a pair of exactly two children. -/
def namedArgument? (argument : Node) : Option (String × Node) :=
  match argument.kind, argument.children with
  | .pair, [key, value] => some (key.text, value)
  | _, _ => none

/-- Set the parameters of all pairs, in order. -/
def setPairs : List Node → List (String × Literal) →
    Except CompileError (List (String × Literal))
  | [], parameters => .ok parameters
  | argument :: rest, parameters =>
    match namedArgument? argument with
    | some (key, value) =>
      match decode value.text with
      | .ok literal => setPairs rest (setParameter key literal parameters)
      | .error error => .error error
    | none => setPairs rest parameters

/-- The parameters of an argument list. -/
def parametersOf (arguments : List Node) : Except CompileError (List (String × Literal)) :=
  match arguments with
  | [single] =>
    if single.kind = .pair then setPairs [single] []
    else
      match decode single.text with
      | .ok literal => .ok [(positionalName, literal)]
      | .error error => .error error
  | _ => setPairs arguments []

/-- Read an option from its node. -/
def ofNode (node : Node) : Except CompileError PropertyOption :=
  if node.kind ≠ .option then .error (.atNode node (.optionExpected node.kind))
  else
    match node.children with
    | [] => .error (.atNode node .optionWithoutName)
    | name :: arguments =>
      match parametersOf arguments with
      | .ok parameters => .ok ⟨name.text, parameters⟩
      | .error error => .error error

/-- The value of a parameter. -/
def parameter? (option : PropertyOption) (name : String) : Option Literal :=
  option.parameters.lookup name

/-- The value of the parameter for a positional argument. -/
def value? (option : PropertyOption) : Option Literal :=
  option.parameter? positionalName

/-- The option designates the identity property. -/
def isIdentity (option : PropertyOption) : Bool :=
  option.name == identityName

end PropertyOption

end SchemaGraph
