import SchemaGraph.Contents
import SchemaGraph.Report
import SchemaGraph.Settings

/-!
# Compiling a schema

A compile registers the builtin types, then the shells of all declarations, then fills the
shells in. Its result is the graph of types or the error that stopped it, and in either case a
report. After the first pass the registered records are listed, unless the settings ask for
quiet.
-/

namespace SchemaGraph

/-- The result of a compile. -/
structure Compilation where
  /-- The filled registry, or the error that stopped the compile. -/
  result : Except CompileError Registry
  report : Report
  /-- The qualified and the display name of every registered record. -/
  listing : List (String × String)

namespace Registry

/-- The qualified and the display name of every record. -/
def listing (registry : Registry) : List (String × String) :=
  (registry.ofKind .record).map fun (_, declaration) =>
    (declaration.name, Name.display declaration.name)

end Registry

namespace Shells

/-- The report of a compile after its first pass. -/
def report (shells : Shells) (moment : Instant) : Report :=
  (shells.skips.foldl (fun report skip => report.record skip.diagnostic)
    (Report.start moment)).setRegistered
      (shells.registry.ofKind .record).length (shells.registry.ofKind .enumeration).length

end Shells

/-- A compile that an error stopped in a scope. -/
def Compilation.failed (error : CompileError) (scope : Option String) (report : Report)
    (listing : List (String × String)) : Compilation :=
  ⟨.error error, report.fail (error.toDiagnostic scope), listing⟩

/-- Compile a schema at an instant. -/
def compile (settings : Settings) (moment : Instant) (schema : Schema) : Compilation :=
  match Registry.withBuiltins settings.primitives settings.blob with
  | .error error => .failed (.ofRegistry error) none (Report.start moment) []
  | .ok builtins =>
    let shells := Shells.ofSchema builtins schema
    let listing := if settings.quiet then [] else shells.registry.listing
    match Contents.ofSchema settings.camelCaseKeys shells.registry schema with
    | .ok contents => ⟨.ok contents.registry, shells.report moment, listing⟩
    | .error halt =>
      .failed halt.stopped.error halt.node.firstChildText? (shells.report moment) listing

end SchemaGraph
