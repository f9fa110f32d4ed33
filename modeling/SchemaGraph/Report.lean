import SchemaGraph.Diagnostic
import SchemaGraph.Instant

/-!
# The report of a compile

What a compile leaves behind besides the graph of types: whether it ran to the end, how many
declarations were registered and every diagnostic in the order raised. A failed compile ends
with the diagnostic of the error that stopped it.
-/

namespace SchemaGraph

/-- How a compile ended. -/
inductive Outcome
  /-- It ran to the end. -/
  | compiled
  /-- An error stopped it. -/
  | failed
deriving DecidableEq, Repr

namespace Outcome

/-- All outcomes. -/
def all : List Outcome :=
  [compiled, failed]

/-- The outcome as it is written. -/
def word : Outcome → String
  | compiled => "compiled"
  | failed => "failed"

/-- The outcome that is written so. -/
def ofWord? (text : String) : Option Outcome :=
  all.find? (·.word == text)

end Outcome

/-- The counts of a report. -/
structure Summary where
  errors : Nat
  warnings : Nat
  /-- The records that were registered. -/
  records : Nat
  /-- The enumerations that were registered. -/
  enumerations : Nat
deriving DecidableEq, Repr

/-- Outcome and diagnostics of one compile. -/
structure Report where
  version : Nat
  compiledAt : Instant
  outcome : Outcome
  summary : Summary
  diagnostics : List Diagnostic
deriving DecidableEq, Repr

namespace Report

/-- The version of the layout of a written report. -/
def currentVersion : Nat := 1

/-- The report of a compile that begins. -/
def start (compiledAt : Instant) : Report :=
  ⟨currentVersion, compiledAt, .compiled, ⟨0, 0, 0, 0⟩, []⟩

/-- Count a diagnostic by its severity. -/
def count (severity : Severity) (summary : Summary) : Summary :=
  match severity with
  | .error => { summary with errors := summary.errors + 1 }
  | .warn => { summary with warnings := summary.warnings + 1 }
  | .info => summary

/-- Record a diagnostic that does not stop the compile. -/
def record (diagnostic : Diagnostic) (report : Report) : Report :=
  { report with
    summary := count diagnostic.severity report.summary
    diagnostics := report.diagnostics ++ [diagnostic] }

/-- Record the diagnostic of the error that stops the compile. -/
def fail (diagnostic : Diagnostic) (report : Report) : Report :=
  record diagnostic { report with outcome := .failed }

/-- Set the counts of what was registered. -/
def setRegistered (records enumerations : Nat) (report : Report) : Report :=
  { report with summary := { report.summary with records, enumerations } }

/-- The compile ran to the end. -/
def succeeded (report : Report) : Bool :=
  report.outcome == .compiled

/-- An error was recorded. -/
def hasErrors (report : Report) : Bool :=
  0 < report.summary.errors

/-- The diagnostic of the error that stopped a failed compile. -/
def fatal? (report : Report) : Option Diagnostic :=
  match report.outcome with
  | .failed => report.diagnostics.getLast?
  | .compiled => none

/-- The diagnostics of a code. -/
def withCode (code : DiagnosticCode) (report : Report) : List Diagnostic :=
  report.diagnostics.filter (·.code == code)

end Report

end SchemaGraph
