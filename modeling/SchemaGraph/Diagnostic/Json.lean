import SchemaGraph.Diagnostic
import SchemaGraph.Node.Json

/-!
# Diagnostics as JSON

The location of a diagnostic is null if there is none; what is not known of a location is left
out.
-/

namespace SchemaGraph

namespace Location

/-- A location as JSON. -/
def toJson (location : Location) : Json :=
  .object
    (Json.textField "scope" location.scope ++
      Json.naturalField "line" location.position.line ++
      Json.naturalField "column" location.position.column)

/-- Read a location. -/
def ofJson? (json : Json) : Option Location :=
  match Json.record? ["scope", "line", "column"] 3 json with
  | some [scope, line, column] => do
    let scope ← Json.optional? Json.text? scope
    let line ← Json.optional? (Json.below? Position.limit) line
    let column ← Json.optional? (Json.below? Position.limit) column
    some ⟨scope, ⟨line, column⟩⟩
  | _ => none

end Location

namespace Diagnostic

/-- A diagnostic as JSON. -/
def toJson (diagnostic : Diagnostic) : Json :=
  .object [
    ("code", .string diagnostic.code.word),
    ("severity", .string diagnostic.severity.word),
    ("message", .string diagnostic.message),
    ("location", (diagnostic.location.map Location.toJson).getD .null)]

/-- Read a diagnostic. -/
def ofJson? (json : Json) : Option Diagnostic :=
  match Json.record? ["code", "severity", "message", "location"] 4 json with
  | some [code, severity, message, location] => do
    let code ← Json.required? (Json.word? DiagnosticCode.ofWord?) code
    let severity ← Json.required? (Json.word? Severity.ofWord?) severity
    let message ← Json.required? Json.text? message
    let location ← Json.optional? Location.ofJson? location
    some ⟨code, severity, message, location⟩
  | _ => none

end Diagnostic

end SchemaGraph
