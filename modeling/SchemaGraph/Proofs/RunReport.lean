import SchemaGraph.Proofs.Progress
import SchemaGraph.Proofs.RegisteredDeclarations

/-!
# The report tells what happened

Nothing but the first pass and the end of a compile writes into the report. The first pass records
the diagnostics of its skips, one for each attempt that fails, and the counts of what its other
attempts have registered. A compile that an error stops adds the diagnostic of this error and no
other, so the last diagnostic of a failed compile is the reason of its failure.
-/

namespace SchemaGraph

open Node Registry

namespace Registry

/-- The ids of the declarations of a kind, in order. -/
def idsOf (registry : Registry) (kind : DeclarationKind) : List TypeId :=
  registry.declarations.findIdxs (·.kind == kind)

/-- The declarations of a kind are listed with their ids. -/
theorem map_fst_ofKind (registry : Registry) (kind : DeclarationKind) :
    (registry.ofKind kind).map Prod.fst = registry.idsOf kind :=
  map_fst_filter_entries registry (·.kind == kind)

/-- There are as many declarations of a kind as there are ids of it. -/
theorem length_ofKind (registry : Registry) (kind : DeclarationKind) :
    (registry.ofKind kind).length = (registry.idsOf kind).length := by
  rw [← map_fst_ofKind, List.length_map]

/-- The ids of a kind are read off the kinds. -/
theorem idsOf_eq_of_map_kind {registry registry' : Registry}
    (same : registry'.declarations.map Declaration.kind =
      registry.declarations.map Declaration.kind) (kind : DeclarationKind) :
    registry'.idsOf kind = registry.idsOf kind := by
  have onKinds (other : Registry) : other.idsOf kind =
      (other.declarations.map Declaration.kind).findIdxs (· == kind) := by
    rw [List.findIdxs_map]
    rfl
  rw [onKinds, onKinds, same]

/-- Registries of the same shells list the same ids for a kind. -/
theorem idsOf_of_bare {registry registry' : Registry} (same : registry'.bare = registry.bare)
    (kind : DeclarationKind) : registry'.idsOf kind = registry.idsOf kind := by
  refine idsOf_eq_of_map_kind ?_ kind
  simpa [bare, Function.comp_def] using
    congrArg (fun other => other.declarations.map Declaration.kind) same

/-- A registration appends its id to those of its kind. -/
theorem idsOf_of_register {registry grown : Registry} {declaration : Declaration} {id : TypeId}
    (success : registry.register declaration = .ok (id, grown)) (kind : DeclarationKind) :
    grown.idsOf kind = registry.idsOf kind ++ if declaration.kind = kind then [id] else [] := by
  obtain ⟨_, _, rfl, rfl⟩ := register_eq_ok_iff.mp success
  have adopted := idsOf_eq_of_map_kind (map_adopt registry declaration.parent [registry.size]
    Declaration.kind fun _ => rfl) kind
  have length : (registry.adopt declaration.parent [registry.size]).declarations.length =
      registry.size := size_adopt registry declaration.parent [registry.size]
  rw [← adopted, idsOf, idsOf, append, List.findIdxs_append, length, Nat.zero_add,
    List.findIdxs_singleton]
  simp

/-- No builtin type is a record or an enumeration. -/
theorem idsOf_builtins {settings : Settings} {kind : DeclarationKind}
    (user : kind = .record ∨ kind = .enumeration) :
    Registry.idsOf ⟨settings.builtins⟩ kind = [] := by
  rw [idsOf, List.findIdxs_eq_nil_iff]
  intro declaration listed
  have builtin := Settings.isUser_builtins listed
  rcases user with rfl | rfl <;> cases declaration <;>
    simp_all [Declaration.kind, Declaration.isUser]

end Registry

/-- The ids that the attempts have registered for declarations of a kind, in order. -/
def Attempt.idsOf (kind : DeclarationKind) (log : List Attempt) : List TypeId :=
  (log.filter (·.node.declaredKind == kind)).filterMap Attempt.id?

/-- The ids of a kind are those from before a run and those that the attempts have registered. -/
theorem Run.idsOf {registry done : Registry} {log : List Attempt} (run : Run registry log done)
    (kind : DeclarationKind) :
    done.idsOf kind = registry.idsOf kind ++ Attempt.idsOf kind log := by
  induction run with
  | nil => simp [Attempt.idsOf]
  | @registered attempt rest _ _ _ _ id registers outcome _ ih =>
    have given : attempt.id? = some id := Attempt.id?_eq_some_iff.mpr outcome
    rw [ih, idsOf_of_register registers.success, emptyShell_kind, List.append_assoc, Attempt.idsOf,
      Attempt.idsOf, List.filter_cons]
    by_cases same : attempt.node.declaredKind = kind <;> simp [same, given]
  | @skipped attempt rest _ _ _ _ _ outcome _ ih =>
    have none : attempt.id? = none := by
      rw [Attempt.id?, outcome]
      rfl
    rw [ih, Attempt.idsOf, Attempt.idsOf, List.filter_cons]
    split
    · rw [List.filterMap_cons_none none]
    · rfl

/-- The code of an error. Each cause has a code of its own, and the properties that an error has
passed through leave the code as it is. -/
inductive CompileError.HasCode : CompileError → DiagnosticCode → Prop
  | structuralParse {fault : StructuralFault} {position : Position} :
      HasCode (.structuralParse fault position) .structuralParseError
  | duplicateType {name : String} : HasCode (.duplicateType name) .duplicateType
  | typeNotFound {name : String} {scope : Option String} :
      HasCode (.typeNotFound name scope) .typeNotFound
  | malformedType {fault : MalformedType} : HasCode (.malformedType fault) .malformedTypeExpression
  | literalParse {text : String} : HasCode (.literalParse text) .literalParseError
  | inProperty {owner property : String} {source : CompileError} {code : DiagnosticCode}
      (cause : HasCode source code) : HasCode (.inProperty owner property source) code

/-- The code that an error is given is the one that it has. -/
theorem CompileError.code_eq_iff {error : CompileError} {code : DiagnosticCode} :
    error.code = code ↔ error.HasCode code := by
  constructor
  · rintro rfl
    induction error with
    | inProperty _ _ _ ih => exact .inProperty ih
    | _ => constructor
  · intro cause
    induction cause with
    | inProperty _ ih => exact ih
    | _ => rfl

/-- The diagnostic reports the error: it is an error itself, has the code of what has caused it and
says what it says. -/
structure Diagnostic.Reports (diagnostic : Diagnostic) (error : CompileError) : Prop where
  severity : diagnostic.severity = .error
  code : error.HasCode diagnostic.code
  message : diagnostic.message = error.message

/-- The diagnostic that an error becomes reports it, whatever the scope. -/
theorem CompileError.reports_toDiagnostic (error : CompileError) (scope : Option String) :
    (error.toDiagnostic scope).Reports error :=
  ⟨rfl, CompileError.code_eq_iff.mp rfl, rfl⟩

/-- The diagnostic of the error that has stopped a compile, if one has. -/
inductive ConcludesWith : Except CompileError Registry → Option Diagnostic → Prop
  | success {registry : Registry} : ConcludesWith (.ok registry) none
  | failure {error : CompileError} {diagnostic : Diagnostic} (reports : diagnostic.Reports error) :
      ConcludesWith (.error error) (some diagnostic)

/-- The report tells of the attempts of the first pass and of the result. -/
structure Report.Tells (report : Report) (log : List Attempt)
    (result : Except CompileError Registry) : Prop where
  /-- The skips come first, in order, and then the reason of a failure, which is the fatal one. -/
  diagnostics : ∃ last, ConcludesWith result last ∧ report.fatal? = last ∧
    report.diagnostics = (log.filterMap Attempt.skip?).map Skip.diagnostic ++ last.toList
  skipped : ∀ skip ∈ log.filterMap Attempt.skip?, skip.diagnostic.Reports skip.error
  severity : ∀ diagnostic ∈ report.diagnostics, diagnostic.severity = .error
  errors : report.summary.errors = report.diagnostics.length
  warnings : report.summary.warnings = 0
  outcome : report.outcome = .failed ↔ ∃ error, result = .error error
  records : report.summary.records = (Attempt.idsOf .record log).length
  enumerations : report.summary.enumerations = (Attempt.idsOf .enumeration log).length
  /-- On success the counts are those of the graph. -/
  graph : ∀ registry, result = .ok registry →
    report.summary.records = (registry.ofKind .record).length ∧
      report.summary.enumerations = (registry.ofKind .enumeration).length

/-- A skip is an error, although it does not stop the compile. -/
theorem Skip.severity_diagnostic (skip : Skip) : skip.diagnostic.severity = .error := rfl

/-- To record skips is to count and to append their diagnostics. -/
theorem foldl_record_skips (skips : List Skip) (report : Report) :
    skips.foldl (fun report skip => report.record skip.diagnostic) report =
      { report with
        summary := { report.summary with errors := report.summary.errors + skips.length }
        diagnostics := report.diagnostics ++ skips.map Skip.diagnostic } := by
  induction skips generalizing report with
  | nil => simp
  | cons skip rest ih =>
    rw [List.foldl_cons, ih]
    simp [Report.record, Report.count, Skip.severity_diagnostic, Nat.add_right_comm, Nat.add_assoc]

/-- The report of a compile that has made attempts and goes on. -/
def Report.afterAttempts (moment : Instant) (log : List Attempt) : Report :=
  ⟨currentVersion, moment, .compiled,
    ⟨(log.filterMap Attempt.skip?).length, 0, (Attempt.idsOf .record log).length,
      (Attempt.idsOf .enumeration log).length⟩,
    (log.filterMap Attempt.skip?).map Skip.diagnostic⟩

/-- The report of a first pass is told by its attempts. -/
theorem Shells.report_eq {shells : Shells} {log : List Attempt}
    (skips : shells.skips = log.filterMap Attempt.skip?)
    (records : shells.registry.idsOf .record = Attempt.idsOf .record log)
    (enumerations : shells.registry.idsOf .enumeration = Attempt.idsOf .enumeration log)
    (moment : Instant) : shells.report moment = Report.afterAttempts moment log := by
  rw [report, foldl_record_skips, length_ofKind, length_ofKind, skips, records, enumerations]
  simp [Report.setRegistered, Report.start, Report.afterAttempts]

/-- What the first pass over a schema registers and skips is what its attempts come to. -/
theorem Shells.ofSchema_attempts (settings : Settings) (schema : Schema) (moment : Instant) :
    (∀ kind, kind = .record ∨ kind = .enumeration →
      (shellsOf settings schema).idsOf kind =
        Attempt.idsOf kind (attempts none schema ⟨settings.builtins⟩)) ∧
    (ofSchema ⟨settings.builtins⟩ schema).report moment =
      Report.afterAttempts moment (attempts none schema ⟨settings.builtins⟩) := by
  obtain ⟨done, walk⟩ := walk_attempts schema (hasScope_none ⟨settings.builtins⟩)
  have made : ofSchema ⟨settings.builtins⟩ schema =
      ⟨done, (attempts none schema ⟨settings.builtins⟩).filterMap Attempt.skip?⟩ := by
    rw [ofSchema, walk.declareAll_eq, List.nil_append]
  have ids {kind : DeclarationKind} (user : kind = .record ∨ kind = .enumeration) :
      done.idsOf kind = Attempt.idsOf kind (attempts none schema ⟨settings.builtins⟩) := by
    rw [walk.run.idsOf, idsOf_builtins user, List.nil_append]
  rw [shellsOf, made]
  exact ⟨fun _ => ids, report_eq rfl (ids (.inl rfl)) (ids (.inr rfl)) moment⟩

namespace Report

variable {log : List Attempt} {moment : Instant}

/-- The report of a compile that gives a graph tells of its skips. -/
theorem tells_of_ok {registry : Registry}
    (records : registry.idsOf .record = Attempt.idsOf .record log)
    (enumerations : registry.idsOf .enumeration = Attempt.idsOf .enumeration log) :
    (afterAttempts moment log).Tells log (.ok registry) where
  diagnostics := ⟨none, .success, rfl, (List.append_nil _).symm⟩
  skipped := fun skip _ => skip.error.reports_toDiagnostic skip.scope
  severity := by
    intro diagnostic listed
    obtain ⟨skip, _, rfl⟩ := List.mem_map.mp listed
    exact skip.severity_diagnostic
  errors := (List.length_map _).symm
  warnings := rfl
  outcome := by simp [afterAttempts]
  records := rfl
  enumerations := rfl
  graph := by
    intro other same
    obtain rfl := Except.ok.inj same
    rw [length_ofKind, length_ofKind, records, enumerations]
    exact ⟨rfl, rfl⟩

/-- The report of a compile that an error has stopped tells of this error as well. -/
theorem tells_of_error (error : CompileError) (scope : Option String) :
    ((afterAttempts moment log).fail (error.toDiagnostic scope)).Tells log (.error error) where
  diagnostics := by
    refine ⟨some (error.toDiagnostic scope), .failure (error.reports_toDiagnostic scope), ?_, rfl⟩
    exact List.getLast?_concat
  skipped := fun skip _ => skip.error.reports_toDiagnostic skip.scope
  severity := by
    intro diagnostic listed
    rcases List.mem_append.mp listed with skipped | last
    · obtain ⟨skip, _, rfl⟩ := List.mem_map.mp skipped
      exact skip.severity_diagnostic
    · rw [List.mem_singleton.mp last]
      rfl
  errors := by simp [fail, record, count, afterAttempts, CompileError.toDiagnostic, Diagnostic.make]
  warnings := rfl
  outcome := by simp [fail, record]
  records := rfl
  enumerations := rfl
  graph := by simp

end Report

/-- The report tells the truth about the run, whatever the shape of the trees. Its diagnostics are
those of the skips of the first pass in document order and, if and only if the compile fails, that
of the error that has stopped it, which is then the fatal one. Each has the code of what has caused
its error and says what this error says. All of them are errors and are counted as such, and no
other counts are made but those of the records and of the enumerations that the first pass has
registered. If the builtin types collide, nothing is attempted. -/
theorem compile_report_tells (settings : Settings) (moment : Instant) (schema : Schema) :
    (settings.builtinNames.Nodup →
      AccountsFor settings schema (Shells.ofSchema ⟨settings.builtins⟩ schema)
          (Shells.attempts none schema ⟨settings.builtins⟩) ∧
        (compile settings moment schema).report.Tells
          (Shells.attempts none schema ⟨settings.builtins⟩)
          (compile settings moment schema).result) ∧
    (¬ settings.builtinNames.Nodup →
      (∃ error, (compile settings moment schema).result = .error error) ∧
        (compile settings moment schema).report.Tells []
          (compile settings moment schema).result) := by
  constructor
  · intro distinct
    constructor
    · obtain ⟨done, walk⟩ := Shells.walk_attempts schema (hasScope_none ⟨settings.builtins⟩)
      rw [Shells.ofSchema, walk.declareAll_eq]
      exact walk.accountsFor distinct
    · obtain ⟨ids, report⟩ := Shells.ofSchema_attempts settings schema moment
      rw [compile, withBuiltins_eq_ok_iff.mpr ⟨distinct, rfl⟩]
      dsimp only
      rw [report]
      cases filled : Contents.ofSchema settings.camelCaseKeys
          (Shells.ofSchema ⟨settings.builtins⟩ schema).registry schema with
      | ok contents =>
        have same : contents.registry.bare = (shellsOf settings schema).bare :=
          Contents.bare_of_fillAll filled
        refine Report.tells_of_ok ?_ ?_
        · rw [idsOf_of_bare same, ids _ (.inl rfl)]
        · rw [idsOf_of_bare same, ids _ (.inr rfl)]
      | error halt => exact Report.tells_of_error _ _
  · intro collide
    obtain ⟨name, failure⟩ := compile_of_collide collide moment schema
    have told : ((Report.afterAttempts moment []).fail
        ((CompileError.duplicateType name).toDiagnostic none)).Tells []
          (.error (.duplicateType name)) :=
      Report.tells_of_error _ _
    rw [failure]
    exact ⟨⟨_, rfl⟩, told⟩

/-- Settings in which the blob type has the name of a primitive type. -/
def collidingSettings : Settings :=
  { Settings.default with blob := "int" }

/-- Four skips and the error that stops the compile are reported; so is a collision of builtin
types. -/
theorem compile_report_tells_tangledSchema :
    Settings.default.builtinNames.Nodup ∧
    (compile Settings.default Instant.epoch tangledSchema).result =
      .error (.duplicateType "Order.Status") ∧
    (compile Settings.default Instant.epoch tangledSchema).report.summary = ⟨5, 0, 1, 2⟩ ∧
    (compile Settings.default Instant.epoch tangledSchema).report.Tells
      (Shells.attempts none tangledSchema ⟨Settings.default.builtins⟩)
      (.error (.duplicateType "Order.Status")) ∧
    ¬ collidingSettings.builtinNames.Nodup ∧
    (compile collidingSettings Instant.epoch tangledSchema).report.Tells []
      (.error (.duplicateType "int")) := by
  have distinct : Settings.default.builtinNames.Nodup := by decide
  have collide : ¬ collidingSettings.builtinNames.Nodup := by decide
  obtain ⟨_, told⟩ :=
    (compile_report_tells Settings.default Instant.epoch tangledSchema).1 distinct
  obtain ⟨_, toldColliding⟩ :=
    (compile_report_tells collidingSettings Instant.epoch tangledSchema).2 collide
  exact ⟨distinct, rfl, by decide, told, collide, toldColliding⟩

end SchemaGraph
