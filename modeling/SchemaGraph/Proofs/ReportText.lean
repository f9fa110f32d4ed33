import SchemaGraph.Proofs.InstantText
import SchemaGraph.Proofs.SchemaText
import SchemaGraph.Report.Json

/-!
# Reports are written and read back

A report is read back from its text, with every diagnostic, every place and the instant of the
compile, exactly if its version is counted in 32 bits and its counts and places are counted in 64
bits. No other reports can be read from any text.
-/

namespace SchemaGraph

/-- The counts are counted in 64 bits. -/
structure Summary.InRange (summary : Summary) : Prop where
  errors : summary.errors < 0x10000000000000000
  warnings : summary.warnings < 0x10000000000000000
  records : summary.records < 0x10000000000000000
  enumerations : summary.enumerations < 0x10000000000000000

instance (summary : Summary) : Decidable summary.InRange :=
  decidable_of_iff (_ ∧ _ ∧ _ ∧ _)
    ⟨fun ⟨errors, warnings, records, enumerations⟩ => ⟨errors, warnings, records, enumerations⟩,
      fun range => ⟨range.errors, range.warnings, range.records, range.enumerations⟩⟩

/-- The place of the diagnostic, if it has a location, is counted in 64 bits. -/
def Diagnostic.InRange (diagnostic : Diagnostic) : Prop :=
  ∀ location ∈ diagnostic.location, location.position.InRange

instance (diagnostic : Diagnostic) : Decidable diagnostic.InRange :=
  inferInstanceAs (Decidable (∀ location ∈ diagnostic.location, location.position.InRange))

/-- The report can be written and read: its numbers are counted in the bits that there are for
them. -/
structure Report.Readable (report : Report) : Prop where
  version : report.version < 0x100000000
  summary : report.summary.InRange
  diagnostics : ∀ diagnostic ∈ report.diagnostics, diagnostic.InRange

instance (report : Report) : Decidable report.Readable :=
  decidable_of_iff (_ ∧ _ ∧ _)
    ⟨fun ⟨version, summary, diagnostics⟩ => ⟨version, summary, diagnostics⟩,
      fun readable => ⟨readable.version, readable.summary, readable.diagnostics⟩⟩

/-! ### Locations -/

namespace Location

/-- The fields of a location, of which some may be left out. -/
def writtenFields (location : Location) : List (String × Option Json) :=
  [("scope", location.scope.map .string), ("line", location.position.line.map .natural),
    ("column", location.position.column.map .natural)]

/-- A location is written field by field, and what is missing is left out. -/
theorem toJson_eq (location : Location) :
    location.toJson = .object (Json.given location.writtenFields) := by
  obtain ⟨scope, line, column⟩ := location
  cases scope <;> cases line <;> cases column <;> rfl

/-- A written location is plain. -/
theorem plain_toJson (location : Location) : location.toJson.Plain := by
  rw [toJson_eq]
  refine Json.plain_given ?_
  simp only [writtenFields, List.forall_mem_cons]
  exact ⟨.ofMap .string _, .ofMap .natural _, .ofMap .natural _, by simp⟩

/-- A location whose position is in range is read back. -/
theorem ofJson?_toJson {location : Location} (inRange : location.position.InRange) :
    ofJson? location.toJson = some location := by
  have fields := Json.record?_given location.writtenFields ["scope", "line", "column"] 3 rfl
    (by decide)
  rw [ofJson?, toJson_eq, fields]
  simp only [writtenFields, List.map_cons, List.map_nil, Json.optional?_text,
    Json.optional?_natural inRange.line, Json.optional?_natural inRange.column]
  rfl

/-- What is read has its position in range. -/
theorem inRange_of_ofJson? {json : Json} {location : Location}
    (success : ofJson? json = some location) : location.position.InRange := by
  rw [ofJson?] at success
  split at success
  · simp only [Option.bind_eq_bind, Option.bind_eq_some_iff, Option.some.injEq] at success
    obtain ⟨_, _, _, isLine, _, isColumn, rfl⟩ := success
    exact Position.inRange_of_optional? isLine isColumn
  · simp at success

end Location

/-! ### Diagnostics -/

namespace Diagnostic

/-- A written diagnostic is plain. -/
theorem plain_toJson (diagnostic : Diagnostic) : diagnostic.toJson.Plain := by
  refine .object ?_
  simp only [List.forall_mem_cons]
  refine ⟨.string _, .string _, .string _, ?_, by simp⟩
  cases diagnostic.location with
  | none => exact .null
  | some location => exact location.plain_toJson

/-- A code is read back from its word. -/
theorem code_ofWord?_word (code : DiagnosticCode) :
    DiagnosticCode.ofWord? code.word = some code := by
  cases code <;> rfl

/-- A severity is read back from its word. -/
theorem severity_ofWord?_word (severity : Severity) :
    Severity.ofWord? severity.word = some severity := by
  cases severity <;> rfl

/-- A diagnostic in range is read back. -/
theorem ofJson?_toJson {diagnostic : Diagnostic} (inRange : diagnostic.InRange) :
    ofJson? diagnostic.toJson = some diagnostic := by
  have location : Json.optional? Location.ofJson?
      (some ((diagnostic.location.map Location.toJson).getD .null)) =
        some diagnostic.location := by
    cases given : diagnostic.location with
    | none => rfl
    | some location =>
      have isObject : location.toJson ≠ .null := Json.noConfusion
      simp [Json.optional?_of_ne_null isObject, Location.ofJson?_toJson (inRange location given)]
  have fields : Json.record? ["code", "severity", "message", "location"] 4 diagnostic.toJson = _ :=
    Json.record?_given
      [("code", some _), ("severity", some _), ("message", some _), ("location", some _)] _ 4 rfl
      (by decide)
  rw [ofJson?, fields]
  simp only [List.map_cons, List.map_nil, Json.required?, Json.word?, Json.text?, location,
    code_ofWord?_word, severity_ofWord?_word]
  rfl

/-- What is read is in range. -/
theorem inRange_of_ofJson? {json : Json} {diagnostic : Diagnostic}
    (success : ofJson? json = some diagnostic) : diagnostic.InRange := by
  rw [ofJson?] at success
  split at success
  · simp only [Option.bind_eq_bind, Option.bind_eq_some_iff, Option.some.injEq] at success
    obtain ⟨_, _, _, _, _, _, _, isLocation, rfl⟩ := success
    rintro location rfl
    obtain ⟨_, read⟩ := Json.read_of_optional? isLocation
    exact Location.inRange_of_ofJson? read
  · simp at success

end Diagnostic

/-! ### Counts -/

namespace Summary

/-- Written counts are plain. -/
theorem plain_toJson (summary : Summary) : summary.toJson.Plain := by
  refine .object ?_
  simp only [List.forall_mem_cons]
  exact ⟨.natural _, .natural _, .natural _, .natural _, by simp⟩

/-- A count below the limit is read back. -/
theorem count?_natural {value : Nat} (small : value < 0x10000000000000000) :
    count? (some (.natural value)) = some value :=
  Json.below?_natural small

/-- A count that is read is below the limit. -/
theorem lt_of_count? {field : Option Json} {value : Nat} (success : count? field = some value) :
    value < 0x10000000000000000 := by
  cases field with
  | none => simp [count?, Json.required?] at success
  | some json => exact Json.lt_of_below? success

/-- Counts in range are read back. -/
theorem ofJson?_toJson {summary : Summary} (inRange : summary.InRange) :
    ofJson? summary.toJson = some summary := by
  have fields : Json.record? fieldNames 4 summary.toJson = _ :=
    Json.record?_given [("errors", some _), ("warnings", some _), ("records_registered", some _),
      ("enums_registered", some _)] _ 4 rfl (by decide)
  rw [ofJson?, fields]
  simp only [List.map_cons, List.map_nil, count?_natural inRange.errors,
    count?_natural inRange.warnings, count?_natural inRange.records,
    count?_natural inRange.enumerations]
  rfl

/-- Counts that are read are in range. -/
theorem inRange_of_ofJson? {json : Json} {summary : Summary}
    (success : ofJson? json = some summary) : summary.InRange := by
  rw [ofJson?] at success
  split at success
  · simp only [Option.bind_eq_bind, Option.bind_eq_some_iff, Option.some.injEq] at success
    obtain ⟨_, errors, _, warnings, _, records, _, enumerations, rfl⟩ := success
    exact ⟨lt_of_count? errors, lt_of_count? warnings, lt_of_count? records,
      lt_of_count? enumerations⟩
  · simp at success

end Summary

/-! ### Reports -/

namespace Report

/-- A written report is plain. -/
theorem plain_toJson (report : Report) : report.toJson.Plain := by
  have diagnostics : ∀ json ∈ report.diagnostics.map Diagnostic.toJson, json.Plain := by
    intro json listed
    obtain ⟨diagnostic, _, rfl⟩ := List.mem_map.mp listed
    exact diagnostic.plain_toJson
  refine .object ?_
  simp only [List.forall_mem_cons]
  exact ⟨.natural _, .string _, .string _, report.summary.plain_toJson, .array diagnostics, by simp⟩

/-- An outcome is read back from its word. -/
theorem outcome_ofWord?_word (outcome : Outcome) : Outcome.ofWord? outcome.word = some outcome := by
  cases outcome <;> rfl

/-- An instant is read back from its text. -/
theorem instant_ofJson?_text (instant : Instant) :
    Instant.ofJson? (.string instant.text) = some instant := by
  simp [Instant.ofJson?, Json.text?, Instant.ofText?_text]

/-- A readable report is read back. -/
theorem ofJson?_toJson {report : Report} (readable : report.Readable) :
    ofJson? report.toJson = some report := by
  have fields : Json.record? fieldNames 5 report.toJson = _ :=
    Json.record?_given [("version", some _), ("compiled_at", some _), ("outcome", some _),
      ("summary", some _), ("diagnostics", some _)] _ 5 rfl (by decide)
  have diagnostics : Json.each? Diagnostic.ofJson? (report.diagnostics.map Diagnostic.toJson) =
      some report.diagnostics :=
    Json.each?_map fun _ listed => Diagnostic.ofJson?_toJson (readable.diagnostics _ listed)
  rw [ofJson?, fields]
  simp only [List.map_cons, List.map_nil, Json.required?, Json.word?, Json.items?,
    Json.below?_natural readable.version, instant_ofJson?_text, outcome_ofWord?_word,
    Summary.ofJson?_toJson readable.summary, diagnostics]
  rfl

/-- Whatever report is read from a text is readable. -/
theorem readable_of_ofText? {report : Report} {text : String}
    (success : ofText? text = some report) : report.Readable := by
  rw [ofText?] at success
  split at success
  · rw [ofJson?] at success
    split at success
    · next version _ _ summary diagnostics _ =>
      simp only [Option.bind_eq_bind, Option.bind_eq_some_iff, Option.some.injEq] at success
      obtain ⟨_, isVersion, _, _, _, _, _, isSummary, _, areDiagnostics, rfl⟩ := success
      cases version with
      | none => simp [Json.required?] at isVersion
      | some version =>
      cases summary with
      | none => simp [Json.required?] at isSummary
      | some summary =>
      cases diagnostics with
      | none => simp [Json.required?] at areDiagnostics
      | some diagnostics =>
        refine ⟨Json.lt_of_below? isVersion, Summary.inRange_of_ofJson? isSummary, ?_⟩
        intro diagnostic listed
        obtain ⟨_, read⟩ := Json.exists_of_mem_items? areDiagnostics listed
        exact Diagnostic.inRange_of_ofJson? read
    · simp at success
  · simp at success

end Report

/-- A report is read back from its text exactly if its version is counted in 32 bits and its counts
and places in 64 bits; its instant is read back whatever it is. No text at all can be read as any
other report, so what is read once is read again from its own text. -/
theorem report_reads_back (report : Report) :
    (Report.ofText? report.text = some report ↔ report.Readable) ∧
      ((∃ text, Report.ofText? text = some report) ↔ report.Readable) := by
  have back (readable : report.Readable) : Report.ofText? report.text = some report := by
    rw [Report.ofText?, Report.text, report.plain_toJson.ofText?_pretty]
    exact Report.ofJson?_toJson readable
  have only {text : String} (success : Report.ofText? text = some report) : report.Readable :=
    Report.readable_of_ofText? success
  exact ⟨⟨only, back⟩, fun ⟨_, success⟩ => only success, fun readable => ⟨_, back readable⟩⟩

/-- Half of a leap second before the year 2017, in a report with a location that carries nothing. -/
def leapSecondReport : Report where
  version := Report.currentVersion
  compiledAt := ⟨1483228799, 1500000000, by decide, by decide⟩
  outcome := .failed
  summary := ⟨1, 0, 0xFFFFFFFFFFFFFFFF, 0⟩
  diagnostics := [⟨.typeNotFound, .error, "\"\\\n\u007f", some ⟨none, ⟨none, none⟩⟩⟩]

/-- A report made in a leap second is read back; one of a version out of range is read from no text.
-/
theorem report_reads_back_leapSecond :
    Report.ofText? leapSecondReport.text = some leapSecondReport ∧
      ∀ text, Report.ofText? text ≠ some { leapSecondReport with version := 0x100000000 } := by
  have readable : leapSecondReport.Readable := by decide
  have unreadable : ¬ Report.Readable { leapSecondReport with version := 0x100000000 } := by decide
  refine ⟨(report_reads_back _).1.mpr readable, fun text success => ?_⟩
  exact unreadable ((report_reads_back _).2.mp ⟨text, success⟩)

end SchemaGraph
