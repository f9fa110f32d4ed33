import SchemaGraph.Diagnostic.Json
import SchemaGraph.Instant.Text
import SchemaGraph.Report

/-!
# Reports as JSON

A report is written with one field on a line. The version is a number of 32 bits and the counts
are numbers of 64 bits.
-/

namespace SchemaGraph

namespace Summary

/-- The fields of the counts, in order. -/
def fieldNames : List String :=
  ["errors", "warnings", "records_registered", "enums_registered"]

/-- The counts as JSON. -/
def toJson (summary : Summary) : Json :=
  .object [
    ("errors", .natural summary.errors),
    ("warnings", .natural summary.warnings),
    ("records_registered", .natural summary.records),
    ("enums_registered", .natural summary.enumerations)]

/-- Read a count. -/
def count? : Option Json → Option Nat :=
  Json.required? (Json.below? 0x10000000000000000)

/-- Read the counts. -/
def ofJson? (json : Json) : Option Summary :=
  match Json.record? fieldNames 4 json with
  | some [errors, warnings, records, enumerations] => do
    let errors ← count? errors
    let warnings ← count? warnings
    let records ← count? records
    let enumerations ← count? enumerations
    some ⟨errors, warnings, records, enumerations⟩
  | _ => none

end Summary

/-- Read an instant from a string. -/
def Instant.ofJson? (json : Json) : Option Instant :=
  match Json.text? json with
  | some text => Instant.ofText? text
  | none => none

namespace Report

/-- The fields of a report, in order. -/
def fieldNames : List String :=
  ["version", "compiled_at", "outcome", "summary", "diagnostics"]

/-- A report as JSON. -/
def toJson (report : Report) : Json :=
  .object [
    ("version", .natural report.version),
    ("compiled_at", .string report.compiledAt.text),
    ("outcome", .string report.outcome.word),
    ("summary", report.summary.toJson),
    ("diagnostics", .array (report.diagnostics.map Diagnostic.toJson))]

/-- Read a report. -/
def ofJson? (json : Json) : Option Report :=
  match Json.record? fieldNames 5 json with
  | some [version, compiledAt, outcome, summary, diagnostics] => do
    let version ← Json.required? (Json.below? 0x100000000) version
    let compiledAt ← Json.required? Instant.ofJson? compiledAt
    let outcome ← Json.required? (Json.word? Outcome.ofWord?) outcome
    let summary ← Json.required? Summary.ofJson? summary
    let diagnostics ← Json.required? (Json.items? Diagnostic.ofJson?) diagnostics
    some ⟨version, compiledAt, outcome, summary, diagnostics⟩
  | _ => none

/-- The text of a written report. -/
def text (report : Report) : String :=
  report.toJson.pretty

/-- Read a report from its text. -/
def ofText? (text : String) : Option Report :=
  match Json.ofText? text with
  | some json => ofJson? json
  | none => none

end Report

end SchemaGraph
