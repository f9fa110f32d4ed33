import SchemaGraph.CommandLine.Directory
import SchemaGraph.CommandLine.Run
import SchemaGraph.Proofs.RunReport
import SchemaGraph.Proofs.SettingsText
import SchemaGraph.Proofs.WrittenFiles

/-!
# Runs of the command line

A command is carried out in a directory of text files, and here it is said how it ends: with which
exit code, what it adds to the stream of results and to that of messages, and which files it leaves
behind. Every run ends in one of the ways listed by `Ends`, and what a user relies on is read off
the list: the graph of types is printed if and only if the schema compiles, the exit code is 2 only
if the arguments make no sense and 0 only if everything asked for was done, and no more than one
file is written.
-/

namespace SchemaGraph.CommandLine

/-- How a command ends: with an exit code, with what it adds to the stream of results and to that
of messages, and with the files as it leaves them. -/
structure Ending where
  code : UInt32
  results : String
  messages : String
  tree : FileTree

/-- The directory as an ending leaves it. -/
def Ending.leaves (ending : Ending) (directory : Directory) : Directory :=
  ⟨ending.tree, directory.printed ++ ending.results, directory.complained ++ ending.messages⟩

namespace FileTree

/-- The file that the settings are read from, if there is one: the one that is named, or else the
usual one if anything is in its place. -/
def configFile? (tree : FileTree) (options : Options) : Option String :=
  options.config.or (if (tree.find usualConfig).isOk then some usualConfig else none)

/-- The settings in the files: those of the settings file, or the default ones without one. -/
inductive Settles (tree : FileTree) (options : Options) : Except SettingsError Settings → Prop
  | default (absent : tree.configFile? options = none) : Settles tree options (.ok Settings.default)
  | read {path text : String} {result : Except SettingsError Settings}
      (named : tree.configFile? options = some path) (reads : tree.read path = .ok text)
      (means : Settings.ofText text = result) : Settles tree options result
  | unread {path : String} {error : FileError} (named : tree.configFile? options = some path)
      (fails : tree.read path = .error error) :
      Settles tree options (.error (.inaccessible error.message))

/-- The schema in a file, or why there is none. -/
inductive Loads (tree : FileTree) (path : String) : Except String Schema → Prop
  | schema {text : String} {schema : Schema} (reads : tree.read path = .ok text)
      (parses : Schema.ofText? text = some schema) : Loads tree path (.ok schema)
  | unread {error : FileError} (fails : tree.read path = .error error) :
      Loads tree path (.error ("Failed to read AST file " ++ path ++ ": " ++ error.message))
  | unparsed {text : String} (reads : tree.read path = .ok text)
      (fails : Schema.ofText? text = none) : Loads tree path (.error "Failed to parse AST JSON")

/-- The files hold settings and a schema, and this is what a compile of them comes to. -/
def Compiles (tree : FileTree) (options : Options) (path : String) (compilation : Compilation) :
    Prop :=
  ∃ base schema, tree.Settles options (.ok base) ∧ tree.Loads path (.ok schema) ∧
    compile (base.switchOn options.camelCaseKeys options.quiet) Instant.epoch schema = compilation

/-- What saving a report comes to: the files with the report, or why it is not saved. -/
inductive Saves (tree : FileTree) (report : Report) :
    Option String → Except FileError FileTree → Prop
  | unwanted : Saves tree report none (.ok tree)
  | wanted {path : String} {result : Except FileError FileTree}
      (writes : tree.write path report.text = result) : Saves tree report (some path) result

end FileTree

/-- What a user who asks for it is told if there is no settings file. -/
def settingsMessage (tree : FileTree) (options : Options) : String :=
  if options.verbose ∧ tree.configFile? options = none then
    "No config file found, using defaults\n"
  else ""

/-- What a user who asks for it is told before a compile. -/
def openingMessages (tree : FileTree) (options : Options) (path : String) : String :=
  settingsMessage tree options ++
    if options.verbose then "Loading AST from: " ++ path ++ "\n" else ""

/-- What a user who asks for it is told when a report is saved. -/
def savedMessage (options : Options) : Option String → String
  | some path => if options.verbose then "Report saved to: " ++ path ++ "\n" else ""
  | none => ""

/-- The line of an error that ends a command. -/
def errorLine (message : String) : String :=
  "Error: " ++ message ++ "\n"

/-- What is written to the two streams for the result of a compile. -/
inductive Shows : Except CompileError Registry → String → String → Prop
  | graph (registry : Registry) : Shows (.ok registry) registry.outlineText ""
  | fault (error : CompileError) : Shows (.error error) "" ("✗ " ++ error.message ++ "\n")

/-- The ways in which a command ends, given the files and what the arguments ask for. -/
inductive Ends (tree : FileTree) : Except Refusal (Options × Command) → Ending → Prop
  | usage : Ends tree (.error .usage) ⟨2, "", usageText, tree⟩
  | help : Ends tree (.error .help) ⟨0, usageText, "", tree⟩
  | version : Ends tree (.error .version) ⟨0, versionText, "", tree⟩
  | unsettled {options : Options} {path : String} {file : Option String} {error : SettingsError}
      (settles : tree.Settles options (.error error)) :
      Ends tree (.ok (options, .compile path file))
        ⟨1, "", errorLine error.message, tree⟩
  | unloaded {options : Options} {path : String} {file : Option String} {base : Settings}
      {reason : String} (settles : tree.Settles options (.ok base))
      (loads : tree.Loads path (.error reason)) :
      Ends tree (.ok (options, .compile path file))
        ⟨1, "", openingMessages tree options path ++
          errorLine ("Failed to load AST from " ++ path ++ "\n\nCaused by:\n    " ++ reason), tree⟩
  | compiled {options : Options} {path : String} {file : Option String} {compilation : Compilation}
      {results messages : String} {saved : FileTree}
      (compiles : tree.Compiles options path compilation)
      (shows : Shows compilation.result results messages)
      (saves : tree.Saves compilation.report file (.ok saved)) :
      Ends tree (.ok (options, .compile path file))
        ⟨if compilation.report.succeeded then 0 else 1, results,
          openingMessages tree options path ++ (messages ++ reportLines compilation.report ++
            savedMessage options file), saved⟩
  | unsaved {options : Options} {path : String} {file : Option String} {compilation : Compilation}
      {results messages : String} {error : FileError}
      (compiles : tree.Compiles options path compilation)
      (shows : Shows compilation.result results messages)
      (saves : tree.Saves compilation.report file (.error error)) :
      Ends tree (.ok (options, .compile path file))
        ⟨1, results, openingMessages tree options path ++ (messages ++
          reportLines compilation.report ++ errorLine error.message), tree⟩
  | taken {options : Options} {path : String} (there : (tree.find path).isOk) :
      Ends tree (.ok (options, .initConfig path))
        ⟨1, "", errorLine (path ++ " already exists"), tree⟩
  | made {options : Options} {path : String} {made : FileTree} (free : ¬ (tree.find path).isOk)
      (writes : tree.write path Settings.default.text = .ok made) :
      Ends tree (.ok (options, .initConfig path)) ⟨0, "Wrote " ++ path ++ "\n", "", made⟩
  | unmade {options : Options} {path : String} {error : FileError} (free : ¬ (tree.find path).isOk)
      (fails : tree.write path Settings.default.text = .error error) :
      Ends tree (.ok (options, .initConfig path))
        ⟨1, "", errorLine (SettingsError.inaccessible error.message).message, tree⟩

/-! ### The steps of a command -/

section Steps

variable (directory : Directory)

/-- The directory after more messages. -/
def Directory.told (messages : String) : Directory :=
  { directory with complained := directory.complained ++ messages }

/-- Messages are written one behind the other. -/
@[simp] theorem Directory.told_told (first second : String) :
    (directory.told first).told second = directory.told (first ++ second) := by
  simp [Directory.told, String.append_assoc]

/-- An empty message is none. -/
@[simp] theorem Directory.told_empty : directory.told "" = directory := by
  simp [Directory.told]

/-- A message is written only if it is wanted. -/
theorem run_complainIf (wanted : Bool) (message : String) :
    (complainIf Directory.host wanted message).run directory =
      pure ((), directory.told (if wanted then message else "")) := by
  cases wanted with
  | false => simp [complainIf]
  | true => rfl

/-- A command that fails says why, and changes no file. -/
theorem run_fail (message : String) :
    (fail Directory.host message).run directory =
      pure (1, directory.told (errorLine message)) := rfl

/-- Settings that cannot be read are inaccessible for the reason that the file gives. -/
theorem run_readSettings {path : String} :
    (readSettings Directory.host path).run directory =
      pure (match directory.tree.read path with
        | .ok text => Settings.ofText text
        | .error error => .error (.inaccessible error.message), directory) := by
  have reads : (Directory.host.read path).run directory =
      pure (directory.tree.read path, directory) := rfl
  rw [readSettings, StateT.run_bind, reads, pure_bind]
  cases directory.tree.read path <;> rfl

/-- The settings are those in the files, and a user who asks for it is told if there are none. -/
theorem run_baseSettings (options : Options) :
    ∃ result, directory.tree.Settles options result ∧
      (baseSettings Directory.host options).run directory =
        pure (result, directory.told (settingsMessage directory.tree options)) := by
  have reads {path : String} (named : directory.tree.configFile? options = some path) :
      ∃ result, directory.tree.Settles options result ∧
        (readSettings Directory.host path).run directory = pure (result, directory) := by
    rw [run_readSettings]
    cases read : directory.tree.read path with
    | ok text => exact ⟨_, .read named read rfl, rfl⟩
    | error error => exact ⟨_, .unread named read, rfl⟩
  rw [baseSettings]
  cases config : options.config with
  | some path =>
    have named : directory.tree.configFile? options = some path := by
      rw [FileTree.configFile?, config, Option.some_or]
    obtain ⟨result, settles, run⟩ := reads named
    refine ⟨result, settles, ?_⟩
    rw [settingsMessage, if_neg (by simp [named]), Directory.told_empty]
    exact run
  | none =>
    have looks : (Directory.host.isTaken usualConfig).run directory =
        pure ((directory.tree.find usualConfig).isOk, directory) := rfl
    simp only [StateT.run_bind, looks, pure_bind]
    cases taken : (directory.tree.find usualConfig).isOk with
    | true =>
      have named : directory.tree.configFile? options = some usualConfig := by
        simp [FileTree.configFile?, config, taken]
      obtain ⟨result, settles, run⟩ := reads named
      refine ⟨result, settles, ?_⟩
      rw [if_pos rfl, settingsMessage, if_neg (by simp [named]), Directory.told_empty]
      exact run
    | false =>
      have absent : directory.tree.configFile? options = none := by
        simp [FileTree.configFile?, config, taken]
      refine ⟨_, .default absent, ?_⟩
      simp [settingsMessage, absent, run_complainIf]

/-- The schema is that in the file. -/
theorem run_readSchema (path : String) :
    ∃ result, directory.tree.Loads path result ∧
      (readSchema Directory.host path).run directory = pure (result, directory) := by
  have reads : (Directory.host.read path).run directory =
      pure (directory.tree.read path, directory) := rfl
  rw [readSchema, StateT.run_bind, reads, pure_bind]
  cases read : directory.tree.read path with
  | error error => exact ⟨_, .unread read, rfl⟩
  | ok text =>
    cases parse : Schema.ofText? text with
    | none =>
      refine ⟨_, .unparsed read parse, ?_⟩
      simp [parse]
    | some schema =>
      refine ⟨_, .schema read parse, ?_⟩
      simp [parse]

/-- The graph is printed, or the error is told; behind it stand the diagnostics. -/
theorem run_showResult (compilation : Compilation) :
    ∃ results messages, Shows compilation.result results messages ∧
      (showResult Directory.host compilation).run directory =
        pure ((), ⟨directory.tree, directory.printed ++ results,
          directory.complained ++ (messages ++ reportLines compilation.report)⟩) := by
  rw [showResult]
  cases compilation.result with
  | ok registry =>
    refine ⟨_, _, .graph registry, ?_⟩
    rw [String.empty_append]
    rfl
  | error error =>
    refine ⟨_, _, .fault error, ?_⟩
    rw [← String.append_assoc, String.append_empty]
    rfl

/-- A file that cannot be written leaves the directory as it was. -/
theorem run_write (path text : String) :
    (Directory.host.write path text).run directory =
      match directory.tree.write path text with
      | .ok tree => pure (.ok (), { directory with tree })
      | .error error => pure (.error error, directory) := by
  simp only [Directory.host, StateT.run_bind, StateT.run_get, pure_bind]
  cases directory.tree.write path text <;> rfl

/-- A report is saved if a file is named for it. -/
theorem run_saveReport (options : Options) (report : Report) (file : Option String) :
    ∃ result, directory.tree.Saves report file result ∧
      (saveReport Directory.host options report file).run directory =
        match result with
        | .ok saved =>
          pure (.ok (), { directory with tree := saved }.told (savedMessage options file))
        | .error error => pure (.error error, directory) := by
  cases file with
  | none => exact ⟨_, .unwanted, by simp [saveReport, savedMessage]⟩
  | some path =>
    refine ⟨_, .wanted rfl, ?_⟩
    simp only [saveReport, StateT.run_bind, run_write]
    cases directory.tree.write path report.text with
    | error error => rfl
    | ok saved => simp [run_complainIf, savedMessage]

end Steps

/-- If the settings cannot be read there is a settings file, so nothing is told before. -/
theorem settingsMessage_of_unsettled {tree : FileTree} {options : Options} {error : SettingsError}
    (settles : tree.Settles options (.error error)) : settingsMessage tree options = "" := by
  cases settles with
  | read named => exact if_neg (by simp [named])
  | unread named => exact if_neg (by simp [named])

/-- A compile ends in one of the listed ways. -/
theorem ends_of_compileFile (directory : Directory) (options : Options) (path : String)
    (file : Option String) :
    ∃ ending, Ends directory.tree (.ok (options, .compile path file)) ending ∧
      (compileFile Directory.host options path file).run directory =
        pure (ending.code, ending.leaves directory) := by
  obtain ⟨settled, settles, ran⟩ := run_baseSettings directory options
  simp only [compileFile, StateT.run_bind, ran, pure_bind]
  cases settled with
  | error error =>
    refine ⟨_, .unsettled settles, ?_⟩
    rw [settingsMessage_of_unsettled settles, Directory.told_empty]
    simp [run_fail, Ending.leaves, Directory.told]
  | ok base =>
    simp only [StateT.run_bind, run_complainIf, pure_bind, Directory.told_told]
    rw [← openingMessages]
    obtain ⟨loaded, loads, ran⟩ :=
      run_readSchema (directory.told (openingMessages directory.tree options path)) path
    simp only [ran, pure_bind]
    cases loaded with
    | error reason =>
      refine ⟨_, .unloaded settles loads, ?_⟩
      simp [run_fail, Ending.leaves, Directory.told, String.append_assoc]
    | ok schema =>
      have now (directory : Directory) :
          (Directory.host.now).run directory = pure (Instant.epoch, directory) := rfl
      simp only [StateT.run_bind, now, pure_bind]
      generalize compiles : compile (base.switchOn options.camelCaseKeys options.quiet)
        Instant.epoch schema = compilation
      obtain ⟨results, messages, shows, ran⟩ := run_showResult
        (directory.told (openingMessages directory.tree options path)) compilation
      simp only [ran, pure_bind]
      obtain ⟨saved, saves, ran⟩ := run_saveReport ⟨directory.tree, directory.printed ++ results,
        directory.complained ++ openingMessages directory.tree options path ++
          (messages ++ reportLines compilation.report)⟩ options compilation.report file
      cases saved with
      | error error =>
        refine ⟨_, .unsaved ⟨base, schema, settles, loads, compiles⟩ shows saves, ?_⟩
        simp only [Directory.told, ran, pure_bind]
        simp [run_fail, Ending.leaves, Directory.told, String.append_assoc]
      | ok saved =>
        refine ⟨_, .compiled ⟨base, schema, settles, loads, compiles⟩ shows saves, ?_⟩
        simp only [Directory.told, ran, pure_bind]
        simp [Ending.leaves, String.append_assoc]

/-- To make a settings file ends in one of the listed ways. -/
theorem ends_of_initConfig (directory : Directory) (options : Options) (path : String) :
    ∃ ending, Ends directory.tree (.ok (options, .initConfig path)) ending ∧
      (initConfig Directory.host path).run directory =
        pure (ending.code, ending.leaves directory) := by
  have looks : (Directory.host.isTaken path).run directory =
      pure ((directory.tree.find path).isOk, directory) := rfl
  simp only [initConfig, StateT.run_bind, looks, pure_bind]
  by_cases taken : (directory.tree.find path).isOk = true
  · refine ⟨_, .taken taken, ?_⟩
    simp [taken, run_fail, Ending.leaves, Directory.told]
  · simp only [taken, Bool.false_eq_true, if_false, StateT.run_bind, run_write]
    cases writes : directory.tree.write path Settings.default.text with
    | error error =>
      refine ⟨_, .unmade taken writes, ?_⟩
      simp [run_fail, Ending.leaves, Directory.told]
    | ok made =>
      refine ⟨_, .made taken writes, ?_⟩
      have prints (directory : Directory) : (Directory.host.print ("Wrote " ++ path ++ "\n")).run
          directory = pure ((), { directory with
            printed := directory.printed ++ ("Wrote " ++ path ++ "\n") }) := rfl
      simp [prints, Ending.leaves]

/-- Every run ends in one of the listed ways. -/
theorem ends_of_run (directory : Directory) (arguments : List String) :
    ∃ ending, Ends directory.tree (parse arguments) ending ∧
      (run Directory.host arguments).run directory = (ending.code, ending.leaves directory) := by
  rw [run]
  cases parse arguments with
  | error refusal =>
    cases refusal with
    | usage => exact ⟨_, .usage, by simp [Ending.leaves, refuse]; rfl⟩
    | help => exact ⟨_, .help, by simp [Ending.leaves, refuse]; rfl⟩
    | version => exact ⟨_, .version, by simp [Ending.leaves, refuse]; rfl⟩
  | ok asked =>
    obtain ⟨options, command⟩ := asked
    cases command with
    | compile path file => exact ends_of_compileFile directory options path file
    | initConfig path => exact ends_of_initConfig directory options path

/-! ### What a user relies on -/

namespace FileTree

variable {tree : FileTree} {options : Options}

/-- There is one outcome of reading the settings. -/
theorem Settles.unique {first second : Except SettingsError Settings}
    (settles : tree.Settles options first) (settles' : tree.Settles options second) :
    first = second := by
  cases settles <;> cases settles' <;> simp_all

/-- There is one outcome of reading a schema. -/
theorem Loads.unique {path : String} {first second : Except String Schema}
    (loads : tree.Loads path first) (loads' : tree.Loads path second) : first = second := by
  cases loads <;> cases loads' <;> simp_all

/-- There is one outcome of saving a report. -/
theorem Saves.unique {report : Report} {file : Option String}
    {first second : Except FileError FileTree} (saves : tree.Saves report file first)
    (saves' : tree.Saves report file second) : first = second := by
  cases saves <;> cases saves' <;> simp_all

/-- There is one compile of what the files hold. -/
theorem Compiles.unique {path : String} {first second : Compilation}
    (compiles : tree.Compiles options path first) (compiles' : tree.Compiles options path second) :
    first = second := by
  obtain ⟨base, schema, settles, loads, rfl⟩ := compiles
  obtain ⟨base', schema', settles', loads', rfl⟩ := compiles'
  obtain rfl := Except.ok.inj (settles.unique settles')
  obtain rfl := Except.ok.inj (loads.unique loads')
  rfl

end FileTree

/-- A report has succeeded exactly if the compile has given a graph. -/
theorem succeeded_compile_iff {settings : Settings} {moment : Instant} {schema : Schema} :
    (compile settings moment schema).report.succeeded = true ↔
      ∃ registry, (compile settings moment schema).result = .ok registry := by
  have goesOn (shells : Shells) : (shells.report moment).outcome = .compiled := by
    rw [Shells.report, foldl_record_skips]
    rfl
  rw [compile]
  cases Registry.withBuiltins settings.primitives settings.blob with
  | error error => simp [Compilation.failed, Report.fail, Report.record, Report.succeeded]
  | ok builtins =>
    dsimp only
    cases Contents.ofSchema settings.camelCaseKeys (Shells.ofSchema builtins schema).registry
      schema with
    | error halt => simp [Compilation.failed, Report.fail, Report.record, Report.succeeded]
    | ok contents => simp [Report.succeeded, goesOn]

section Runs

variable {directory after : Directory} {arguments : List String} {code : UInt32}
  {options : Options} {path : String} {file : Option String}
  (ran : (run Directory.host arguments).run directory = (code, after))

include ran

/-- The end of a run is the one that is listed. -/
theorem exists_ends :
    ∃ ending, Ends directory.tree (parse arguments) ending ∧ code = ending.code ∧
      after = ending.leaves directory := by
  obtain ⟨ending, ends, same⟩ := ends_of_run directory arguments
  rw [ran, Prod.mk.injEq] at same
  exact ⟨ending, ends, same⟩

/-- The exit code is 2 exactly if the arguments make no sense. -/
theorem code_eq_two_iff : code = 2 ↔ parse arguments = .error .usage := by
  obtain ⟨ending, ends, rfl, -⟩ := exists_ends ran
  generalize parse arguments = asked at ends ⊢
  cases ends with
  | compiled => split <;> simp
  | _ => simp

/-- If the files hold settings and a schema, the result of the compile is shown. The report is saved
if a file is named for it, and then the exit code tells whether the compile has succeeded. -/
theorem ends_of_compiles (asks : parse arguments = .ok (options, .compile path file))
    {compilation : Compilation} (compiles : directory.tree.Compiles options path compilation) :
    ∃ results messages, Shows compilation.result results messages ∧
      after.printed = directory.printed ++ results ∧
      ((∃ saved, directory.tree.Saves compilation.report file (.ok saved) ∧ after.tree = saved ∧
          code = if compilation.report.succeeded then 0 else 1) ∨
        ∃ error, directory.tree.Saves compilation.report file (.error error) ∧
          after.tree = directory.tree ∧ code = 1) := by
  obtain ⟨ending, ends, rfl, rfl⟩ := exists_ends ran
  rw [asks] at ends
  cases ends with
  | unsettled settles =>
    obtain ⟨_, _, settles', -⟩ := compiles
    simpa using settles'.unique settles
  | unloaded _ loads =>
    obtain ⟨_, _, -, loads', -⟩ := compiles
    simpa using loads'.unique loads
  | compiled compiles' shows saves =>
    obtain rfl := compiles.unique compiles'
    exact ⟨_, _, shows, rfl, .inl ⟨_, saves, rfl, rfl⟩⟩
  | unsaved compiles' shows saves =>
    obtain rfl := compiles.unique compiles'
    exact ⟨_, _, shows, rfl, .inr ⟨_, saves, rfl, rfl⟩⟩

/-- If the files hold no settings or no schema, nothing is printed and no file is written. -/
theorem ends_of_not_compiles (asks : parse arguments = .ok (options, .compile path file))
    (fails : ¬ ∃ compilation, directory.tree.Compiles options path compilation) :
    after.printed = directory.printed ∧ after.tree = directory.tree ∧ code = 1 := by
  obtain ⟨ending, ends, rfl, rfl⟩ := exists_ends ran
  rw [asks] at ends
  cases ends with
  | unsettled => exact ⟨String.append_empty, rfl, rfl⟩
  | unloaded => exact ⟨String.append_empty, rfl, rfl⟩
  | compiled compiles => exact (fails ⟨_, compiles⟩).elim
  | unsaved compiles => exact (fails ⟨_, compiles⟩).elim

/-- The graph is printed, once and as a whole, if the schema compiles; else nothing is. -/
theorem printed_of_compile (asks : parse arguments = .ok (options, .compile path file)) :
    (∃ compilation registry, directory.tree.Compiles options path compilation ∧
        compilation.result = .ok registry ∧
        after.printed = directory.printed ++ registry.outlineText) ∨
      (∀ compilation registry, directory.tree.Compiles options path compilation →
        compilation.result ≠ .ok registry) ∧ after.printed = directory.printed := by
  by_cases compiles : ∃ compilation, directory.tree.Compiles options path compilation
  · obtain ⟨compilation, compiles⟩ := compiles
    obtain ⟨results, messages, shows, printed, -⟩ := ends_of_compiles ran asks compiles
    generalize result : compilation.result = shown at shows
    cases shows with
    | graph registry => exact .inl ⟨compilation, registry, compiles, result, printed⟩
    | fault error =>
      refine .inr ⟨fun other registry compiles' => ?_, printed.trans String.append_empty⟩
      simp [← compiles.unique compiles', result]
  · refine .inr ⟨fun other registry compiles' => ?_, (ends_of_not_compiles ran asks compiles).1⟩
    exact (compiles ⟨other, compiles'⟩).elim

/-- The exit code of a compile is 0 exactly if the schema compiles and the report, if it is wanted,
is saved. -/
theorem code_eq_zero_iff (asks : parse arguments = .ok (options, .compile path file)) :
    code = 0 ↔
      ∃ compilation registry saved, directory.tree.Compiles options path compilation ∧
        compilation.result = .ok registry ∧
        directory.tree.Saves compilation.report file (.ok saved) := by
  constructor
  · intro success
    by_cases compiles : ∃ compilation, directory.tree.Compiles options path compilation
    · obtain ⟨compilation, compiles⟩ := compiles
      obtain ⟨_, _, -, -, ⟨saved, saves, -, same⟩ | ⟨_, -, -, same⟩⟩ :=
        ends_of_compiles ran asks compiles
      · have succeeded : compilation.report.succeeded = true := by
          by_contra fails
          simp [same, fails] at success
        obtain ⟨base, schema, settles, loads, rfl⟩ := compiles
        obtain ⟨registry, graph⟩ := succeeded_compile_iff.mp succeeded
        exact ⟨_, registry, saved, ⟨base, schema, settles, loads, rfl⟩, graph, saves⟩
      · simp [same] at success
    · simp [(ends_of_not_compiles ran asks compiles).2.2] at success
  · rintro ⟨compilation, registry, saved, compiles, graph, saves⟩
    obtain ⟨_, _, -, -, ⟨_, -, -, rfl⟩ | ⟨error, saves', -, -⟩⟩ :=
      ends_of_compiles ran asks compiles
    · obtain ⟨base, schema, -, -, rfl⟩ := compiles
      rw [if_pos (succeeded_compile_iff.mpr ⟨registry, graph⟩)]
    · simpa using saves.unique saves'

/-- No run writes more than one file. -/
theorem tree_of_run :
    after.tree = directory.tree ∨ ∃ path text, directory.tree.write path text = .ok after.tree := by
  obtain ⟨ending, ends, rfl, rfl⟩ := exists_ends ran
  generalize parse arguments = asked at ends
  cases ends with
  | compiled _ _ saves =>
    cases saves with
    | unwanted => exact .inl rfl
    | wanted writes => exact .inr ⟨_, _, writes⟩
  | made _ writes => exact .inr ⟨_, _, writes⟩
  | _ => exact .inl rfl

/-- A settings file never replaces one: where something is already, no file is written. -/
theorem tree_of_taken {asked : Options} (asks : parse arguments = .ok (asked, .initConfig path))
    (taken : (directory.tree.find path).isOk = true) :
    after.tree = directory.tree ∧ code = 1 := by
  obtain ⟨ending, ends, rfl, rfl⟩ := exists_ends ran
  rw [asks] at ends
  cases ends with
  | taken => exact ⟨rfl, rfl⟩
  | made free => exact (free taken).elim
  | unmade free => exact (free taken).elim

/-- A settings file that has been made holds the default settings. -/
theorem settles_of_made {asked : Options} (asks : parse arguments = .ok (asked, .initConfig path))
    (success : code = 0) (elsewhere : ¬ directory.tree.Reaches path FileTree.nullFile)
    (named : after.tree.configFile? options = some path) :
    after.tree.Settles options (.ok Settings.default) := by
  obtain ⟨ending, ends, rfl, rfl⟩ := exists_ends ran
  rw [asks] at ends
  cases ends with
  | taken => simp at success
  | unmade => simp at success
  | made _ writes =>
    have apart : Settings.default.blob ∉ Settings.default.primitives := by decide
    exact .read named (FileTree.read_of_write writes elsewhere)
      (Settings.ofText_text apart)

end Runs

end SchemaGraph.CommandLine
