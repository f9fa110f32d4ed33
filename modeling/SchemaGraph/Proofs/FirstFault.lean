import SchemaGraph.Proofs.SiteFaults

/-!
# A compile fails with the first fault

A compile of a well-placed schema fails exactly if a site is at fault, and it reports the fault of
the first one in document order. A fault in the name of a declaration or the lack of a name is
reported as it is, any other fault of a property inside the property and in no further layer.
-/

namespace SchemaGraph

open Node Registry TypeExpression

/-- None of the sites is at fault. -/
def Site.Faultless (settings : Settings) (names : List String) (sites : List Site) : Prop :=
  ∀ earlier site later, sites = earlier ++ site :: later →
    ∀ error, ¬ site.Fault settings names earlier error

/-- The fault of the first site of the schema that is at fault. -/
def FirstFault (settings : Settings) (names : List String) (schema : Schema)
    (error : CompileError) : Prop :=
  ∃ front site behind, Site.inside [] schema = front ++ site :: behind ∧
    Site.Faultless settings names front ∧ site.Fault settings names front error

/-- How the fault of a site is reported: as it is for a declaration and for a property without a
name, and inside the property otherwise. -/
structure Site.Reports (site : Site) (error : CompileError) : Prop where
  bare : site.node.declares = true ∨ site.node.children = [] →
    (∃ fault position, error = .structuralParse fault position) ∨ error = .duplicateType site.name
  within : site.node.declares = false → site.node.children ≠ [] →
    ∃ owner name source, Name.ofPath? site.path = some owner ∧
      site.node.firstChildText? = some name ∧ error = .inProperty owner name source ∧
      source.root = source

/-- Every fault is one that its site reports. -/
theorem Site.Fault.reports {settings : Settings} {names : List String} {earlier : List Site}
    {site : Site} {error : CompileError} (fault : site.Fault settings names earlier error) :
    site.Reports error := by
  cases fault with
  | name declares fault =>
    refine ⟨fun _ => .inl ?_, by simp [declares]⟩
    cases fault <;> exact ⟨_, _, rfl⟩
  | taken declares => exact ⟨fun _ => .inr rfl, by simp [declares]⟩
  | property kind _ fault =>
    obtain ⟨nameless, rfl⟩ | inside := fault.error_eq
    · exact ⟨fun _ => .inl ⟨_, _, rfl⟩, fun _ named => absurd nameless named⟩
    · refine ⟨fun unnamed => ?_, fun _ _ => inside⟩
      obtain ⟨_, _, _, _, named, _⟩ := inside
      cases unnamed with
      | inl declares => simp [Node.declares, kind] at declares
      | inr nameless => simp [firstChildText?, nameless] at named

section Compile

variable {settings : Settings} {schema : Schema}

/-- The first sites are visited exactly if none of them is at fault. -/
theorem exists_visitAll_iff_faultless (placed : WellPlaced schema)
    (distinct : settings.builtinNames.Nodup) {front behind : List Site}
    (split : Site.inside [] schema = front ++ behind) :
    (∃ contents, Contents.visitAll settings.camelCaseKeys front
        ⟨shellsOf settings schema, []⟩ = .ok contents) ↔
      Site.Faultless settings (shellsOf settings schema).names front := by
  constructor
  · intro success
    obtain ⟨contents, visited⟩ := success
    intro earlier site later isFront error fault
    rw [isFront] at split visited
    rw [List.append_assoc, List.cons_append] at split
    obtain ⟨middle, first, second⟩ := Contents.visitAll_append_eq_ok_iff.mp visited
    obtain ⟨next, passes, _⟩ := Contents.visitAll_cons_eq_ok_iff.mp second
    have gets : GetsTo settings schema earlier site middle := ⟨placed, distinct, ⟨_, split⟩, first⟩
    rw [gets.visit_eq_error_iff_fault.mpr ⟨fault, rfl⟩] at passes
    simp at passes
  · intro faultless
    cases result : Contents.visitAll settings.camelCaseKeys front
        ⟨shellsOf settings schema, []⟩ with
    | ok contents => exact ⟨contents, rfl⟩
    | error stopped =>
      obtain ⟨earlier, site, later, middle, isFront, first, stops⟩ :=
        Contents.visitAll_eq_error_iff.mp result
      rw [isFront, List.append_assoc, List.cons_append] at split
      have gets : GetsTo settings schema earlier site middle :=
        ⟨placed, distinct, ⟨_, split⟩, first⟩
      obtain ⟨fault, _⟩ := gets.visit_eq_error_iff_fault.mp stops
      exact (faultless earlier site later isFront _ fault).elim

/-- The visits of the sites are stopped by the first fault. -/
theorem visitAll_eq_error_iff_firstFault (placed : WellPlaced schema)
    (distinct : settings.builtinNames.Nodup) {error : CompileError} :
    (∃ left, Contents.visitAll settings.camelCaseKeys (Site.inside [] schema)
        ⟨shellsOf settings schema, []⟩ = .error ⟨error, left⟩) ↔
      FirstFault settings (shellsOf settings schema).names schema error := by
  constructor
  · intro failure
    obtain ⟨left, stopped⟩ := failure
    obtain ⟨front, site, behind, contents, split, visited, stops⟩ :=
      Contents.visitAll_eq_error_iff.mp stopped
    have gets : GetsTo settings schema front site contents :=
      ⟨placed, distinct, ⟨behind, split⟩, visited⟩
    refine ⟨front, site, behind, split, ?_, (gets.visit_eq_error_iff_fault.mp stops).1⟩
    exact (exists_visitAll_iff_faultless placed distinct split).mp ⟨contents, visited⟩
  · intro first
    obtain ⟨front, site, behind, split, faultless, fault⟩ := first
    obtain ⟨contents, visited⟩ :=
      (exists_visitAll_iff_faultless placed distinct split).mpr faultless
    have gets : GetsTo settings schema front site contents :=
      ⟨placed, distinct, ⟨behind, split⟩, visited⟩
    refine ⟨contents, Contents.visitAll_eq_error_iff.mpr ?_⟩
    exact ⟨front, site, behind, contents, split, visited,
      gets.visit_eq_error_iff_fault.mpr ⟨fault, rfl⟩⟩

end Compile

/-- A compile of a well-placed schema, given distinct builtin types, fails exactly if a site is at
fault, and it fails with the fault of the first site that is. The verdict on a site depends on the
registered names and on the sites in front only. All declarations and all members of records are at
sites, in document order. -/
theorem compile_fails_with_firstFault (settings : Settings) (moment : Instant) (schema : Schema)
    (placed : WellPlaced schema) (distinct : settings.builtinNames.Nodup) :
    ((∃ error, (compile settings moment schema).result = .error error) ↔
      ∃ front site behind error, Site.inside [] schema = front ++ site :: behind ∧
        site.Fault settings (shellsOf settings schema).names front error) ∧
    (∀ error, (compile settings moment schema).result = .error error ↔
      FirstFault settings (shellsOf settings schema).names schema error) ∧
    (∀ front (site : Site) error,
      site.Fault settings (shellsOf settings schema).names front error → site.Reports error) ∧
    ((Site.inside [] schema).map Site.node).Sublist (subnodesIn schema) ∧
    (Site.declarations [] schema).map Site.node = (subnodesIn schema).filter Node.declares ∧
    ∀ site ∈ Site.declarations [] schema, site.node.kind = .record →
      ∀ member ∈ site.node.members, ⟨site.innerPath, member⟩ ∈ Site.inside [] schema := by
  have first (error : CompileError) : (compile settings moment schema).result = .error error ↔
      FirstFault settings (shellsOf settings schema).names schema error := by
    rw [result_eq_error_iff distinct, visitAll_eq_error_iff_firstFault placed distinct]
  refine ⟨⟨fun failure => ?_, fun faulty => ?_⟩, first, fun _ _ _ fault => fault.reports,
    Site.map_node_sublist [] schema, map_node_declarations placed [],
    fun site declared => Site.mem_inside_of_member (List.mem_filter.mp declared).1⟩
  · obtain ⟨error, failed⟩ := failure
    obtain ⟨front, site, behind, split, _, fault⟩ := (first error).mp failed
    exact ⟨front, site, behind, error, split, fault⟩
  · obtain ⟨front, site, behind, error, split, fault⟩ := faulty
    cases result : (compile settings moment schema).result with
    | error other => exact ⟨other, rfl⟩
    | ok registry =>
      obtain ⟨_, contents, visited, _⟩ := result_eq_ok_iff.mp result
      have faultless := (exists_visitAll_iff_faultless placed distinct
        (List.append_nil _).symm).mp ⟨contents, visited⟩
      exact (faultless front site behind split error fault).elim

/-- A property of the type `State`. -/
def stateProperty : Node :=
  make .property "property" [token "state", make .typePrimitive "type" [], token "State"]

/-- A record with a property of an unknown type, in front of an enumeration that has the name of a
builtin type and of a second record of the same name. -/
def faultySchema : Schema :=
  [record "Task" [stateProperty], enumeration "int" ["one"], record "Task" []]

/-- Of several faults the first one in the document is reported, with the property that it is in. -/
theorem compile_fails_with_firstFault_faultySchema :
    WellPlaced faultySchema ∧ Settings.default.builtinNames.Nodup ∧
      (compile Settings.default Instant.epoch faultySchema).result =
        .error (.inProperty "Task" "state" (.typeNotFound "State" (some "Task"))) := by
  have placed : WellPlaced faultySchema := by decide
  have distinct : Settings.default.builtinNames.Nodup := by decide
  obtain ⟨_, first, _⟩ :=
    compile_fails_with_firstFault Settings.default Instant.epoch faultySchema placed distinct
  have faultless : Site.Faultless Settings.default
      (shellsOf Settings.default faultySchema).names [⟨[], record "Task" [stateProperty]⟩] := by
    intro earlier site later split error fault
    cases earlier with
    | cons => simp at split
    | nil =>
      obtain ⟨rfl, _⟩ := List.cons.inj split
      cases fault with
      | name _ fault =>
        exact Node.HasLocalName.not_nameFault (by decide) fault
      | taken _ _ taken =>
        obtain builtin | ⟨_, inFront, _⟩ := taken
        · exact absurd builtin (by decide)
        · simp at inFront
      | property kind => exact absurd kind (by decide)
  have allowed : Allows [make .typePrimitive "type" []] (token "State") :=
    ⟨_, [], spells_spelling (.name "State")⟩
  have unknown : ¬ Name.Refers (shellsOf Settings.default faultySchema).names ["Task"] "State" := by
    decide
  have stuck : StuckWith (Name.Refers (shellsOf Settings.default faultySchema).names ["Task"])
      (some "Task") [make .typePrimitive "type" [], token "State"]
      (.typeNotFound "State" (some "Task")) := by
    refine ⟨_, [token "State"], rfl, ⟨⟨_, allowed⟩, ?_⟩, .unknown allowed rfl unknown⟩
    exact List.forall_mem_singleton.mpr fun isToken => absurd isToken (by decide)
  have fault : stateProperty.PropertyFault (shellsOf Settings.default faultySchema).names ["Task"]
      (.inProperty "Task" (token "state").text _) := .type rfl rfl stuck
  have inRecord : (["Task"] : List String) ≠ [] := by simp
  refine ⟨placed, distinct, (first _).mpr ?_⟩
  exact ⟨_, ⟨["Task"], stateProperty⟩, _, rfl, faultless, .property rfl inRecord fault⟩

end SchemaGraph
