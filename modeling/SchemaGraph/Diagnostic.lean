import SchemaGraph.Node

/-!
# Diagnostics

A diagnostic is a message with a stable code, a severity and, if anything is known of it, the
place in the schema that it is about.
-/

namespace SchemaGraph

/-- The stable codes of diagnostics. -/
inductive DiagnosticCode
  /-- A node does not have the shape expected where it stands. -/
  | structuralParseError
  /-- Two declarations share a qualified name. -/
  | duplicateType
  /-- A type reference cannot be resolved from its scope. -/
  | typeNotFound
  /-- A type expression has a wrong shape or ends early. -/
  | malformedTypeExpression
  /-- An option literal is no string, no float and no integer. -/
  | literalParseError
deriving DecidableEq, Repr

namespace DiagnosticCode

/-- All codes. -/
def all : List DiagnosticCode :=
  [structuralParseError, duplicateType, typeNotFound, malformedTypeExpression,
    literalParseError]

/-- The code as it is written. -/
def word : DiagnosticCode → String
  | structuralParseError => "STRUCTURAL_PARSE_ERROR"
  | duplicateType => "DUPLICATE_TYPE"
  | typeNotFound => "TYPE_NOT_FOUND"
  | malformedTypeExpression => "MALFORMED_TYPE_EXPRESSION"
  | literalParseError => "LITERAL_PARSE_ERROR"

/-- The code that is written so. -/
def ofWord? (text : String) : Option DiagnosticCode :=
  all.find? (·.word == text)

end DiagnosticCode

/-- How bad a diagnostic is. -/
inductive Severity
  | info
  | warn
  | error
deriving DecidableEq, Repr

namespace Severity

/-- All severities. -/
def all : List Severity :=
  [info, warn, error]

/-- The severity as it is written. -/
def word : Severity → String
  | info => "info"
  | warn => "warn"
  | error => "error"

/-- The severity that is written so. -/
def ofWord? (text : String) : Option Severity :=
  all.find? (·.word == text)

end Severity

/-- Where a diagnostic applies: the qualified name of the enclosing declaration and a place in
the source. -/
structure Location where
  scope : Option String
  position : Position
deriving DecidableEq, Repr

namespace Location

/-- The location carries nothing. -/
def isEmpty (location : Location) : Bool :=
  location.scope.isNone && location.position.line.isNone && location.position.column.isNone

/-- The text of a place; a column without a line is left out. -/
def placeText? : Position → Option String
  | ⟨some line, some column⟩ => some (toString line ++ ":" ++ toString column)
  | ⟨some line, none⟩ => some ("line " ++ toString line)
  | ⟨none, _⟩ => none

/-- The scope and the place, as far as they are known. -/
def text (location : Location) : String :=
  " @ ".intercalate (location.scope.toList ++ (placeText? location.position).toList)

end Location

/-- A message about a schema. -/
structure Diagnostic where
  code : DiagnosticCode
  severity : Severity
  message : String
  location : Option Location
deriving DecidableEq, Repr

namespace Diagnostic

/-- A diagnostic at a location, which is dropped if it carries nothing. -/
def make (code : DiagnosticCode) (severity : Severity) (message : String) (location : Location) :
    Diagnostic :=
  ⟨code, severity, message, if location.isEmpty then none else some location⟩

/-- The diagnostic on one line. -/
def text (diagnostic : Diagnostic) : String :=
  "[" ++ diagnostic.code.word ++ "] " ++ diagnostic.severity.word ++ ": " ++
    diagnostic.message ++
    match diagnostic.location with
    | some location => " (" ++ location.text ++ ")"
    | none => ""

end Diagnostic

end SchemaGraph
