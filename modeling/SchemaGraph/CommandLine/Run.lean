import SchemaGraph.CommandLine.Arguments
import SchemaGraph.CommandLine.Host
import SchemaGraph.Compile
import SchemaGraph.Node.Json
import SchemaGraph.Outline
import SchemaGraph.Report.Json
import SchemaGraph.Settings.Toml

/-!
# The commands

Compiling prints the outline of a schema that compiles, then the diagnostics and the counts, and
saves the report if a file is named for it. Making a settings file never replaces one. The exit
code is 0 after success, 1 after an error and 2 if the arguments make no sense.
-/

namespace SchemaGraph.CommandLine

/-- The name and the version of the program. -/
def versionText : String := "datagen 0.1.0\n"

/-- How the program is used. -/
def usageText : String :=
  String.join [
    "Usage: datagen [OPTIONS] <COMMAND>\n",
    "\nCommands:\n",
    "  compile <AST> [-o <OUTPUT>]  Compile a schema and print the resulting type graph\n",
    "  init-config [PATH]           Write a config file with the default settings\n",
    "\nOptions:\n",
    "  -c, --config <CONFIG>  Path to config file (default: datagen.toml)\n",
    "  -v, --verbose          Enable verbose output\n",
    "  -q, --quiet            Do not list registered types\n",
    "      --camel-case-keys  Store property keys in lowerCamelCase\n",
    "  -h, --help             Print help\n",
    "  -V, --version          Print version\n"]

/-- The lines of a diagnostic. -/
def diagnosticLines (diagnostic : Diagnostic) : String :=
  diagnostic.severity.word ++ " [" ++ diagnostic.code.word ++ "] " ++ diagnostic.message ++ "\n" ++
    match diagnostic.location with
    | some location => "    at " ++ location.text ++ "\n"
    | none => ""

/-- The line of the counts. -/
def summaryLine (summary : Summary) : String :=
  toString summary.records ++ " records, " ++ toString summary.enumerations ++
    " enums registered; " ++ toString summary.errors ++ " errors, " ++
    toString summary.warnings ++ " warnings\n"

/-- The lines of a report. -/
def reportLines (report : Report) : String :=
  String.join (report.diagnostics.map diagnosticLines) ++ summaryLine report.summary

section

variable {m : Type → Type} [Monad m]

/-- Write a message if it is wanted. -/
def complainIf (host : Host m) (wanted : Bool) (message : String) : m Unit :=
  if wanted then host.complain message else pure ()

/-- End with an error. -/
def fail (host : Host m) (message : String) : m UInt32 := do
  host.complain ("Error: " ++ message ++ "\n")
  return 1

/-- Answer arguments that ask for no command. -/
def refuse (host : Host m) : Refusal → m UInt32
  | .usage => do
    host.complain usageText
    return 2
  | .help => do
    host.print usageText
    return 0
  | .version => do
    host.print versionText
    return 0

/-- Read the settings from a file. -/
def readSettings (host : Host m) (path : String) : m (Except SettingsError Settings) := do
  match ← host.read path with
  | .ok text => return Settings.ofText text
  | .error error => return .error (.inaccessible error.message)

/-- The settings of the file that is named, else of the usual file if there is one, else the
default settings. -/
def baseSettings (host : Host m) (options : Options) : m (Except SettingsError Settings) := do
  match options.config with
  | some path => readSettings host path
  | none =>
    if ← host.isTaken usualConfig then readSettings host usualConfig
    else
      complainIf host options.verbose "No config file found, using defaults\n"
      return .ok Settings.default

/-- Read a schema from a file. -/
def readSchema (host : Host m) (path : String) : m (Except String Schema) := do
  match ← host.read path with
  | .error error => return .error ("Failed to read AST file " ++ path ++ ": " ++ error.message)
  | .ok text =>
    match Schema.ofText? text with
    | some schema => return .ok schema
    | none => return .error "Failed to parse AST JSON"

/-- Show what came of a compile. -/
def showResult (host : Host m) (compilation : Compilation) : m Unit := do
  match compilation.result with
  | .ok registry => host.print registry.outlineText
  | .error error => host.complain ("✗ " ++ error.message ++ "\n")
  host.complain (reportLines compilation.report)

/-- Save a report if a file is named for it. -/
def saveReport (host : Host m) (options : Options) (report : Report) (path : Option String) :
    m (Except FileError Unit) := do
  match path with
  | none => return .ok ()
  | some path =>
    match ← host.write path report.text with
    | .error error => return .error error
    | .ok () =>
      complainIf host options.verbose ("Report saved to: " ++ path ++ "\n")
      return .ok ()

/-- Compile the schema of a file. -/
def compileFile (host : Host m) (options : Options) (path : String) (report : Option String) :
    m UInt32 := do
  match ← baseSettings host options with
  | .error error => fail host error.message
  | .ok base =>
    complainIf host options.verbose ("Loading AST from: " ++ path ++ "\n")
    match ← readSchema host path with
    | .error reason =>
      fail host ("Failed to load AST from " ++ path ++ "\n\nCaused by:\n    " ++ reason)
    | .ok schema =>
      let settings := base.switchOn options.camelCaseKeys options.quiet
      let compilation := compile settings (← host.now) schema
      showResult host compilation
      match ← saveReport host options compilation.report report with
      | .error error => fail host error.message
      | .ok () => return if compilation.report.succeeded then 0 else 1

/-- Write the default settings to a file that is not there yet. -/
def initConfig (host : Host m) (path : String) : m UInt32 := do
  if ← host.isTaken path then fail host (path ++ " already exists")
  else
    match ← host.write path Settings.default.text with
    | .error error => fail host (SettingsError.inaccessible error.message).message
    | .ok () =>
      host.print ("Wrote " ++ path ++ "\n")
      return 0

/-- Carry out what the arguments ask for; the result is the exit code. -/
def run (host : Host m) (arguments : List String) : m UInt32 :=
  match parse arguments with
  | .error refusal => refuse host refusal
  | .ok (options, .compile schema report) => compileFile host options schema report
  | .ok (_, .initConfig path) => initConfig host path

end

end SchemaGraph.CommandLine
