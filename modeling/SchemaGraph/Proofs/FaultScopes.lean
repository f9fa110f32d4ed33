import SchemaGraph.Proofs.FirstFault
import SchemaGraph.Proofs.FirstRejection
import SchemaGraph.Proofs.RunReport

/-!
# The scope of the fatal diagnostic

The first pass and the properties of a record locate their errors in the innermost record around a
node. Any other error of the second pass is located in the node of the top level that the pass was
at, however deep the fault lies inside it. The two agree for members of the top level only.
-/

namespace SchemaGraph

open Node Registry

namespace Name

/-- The outermost record of a path has the qualified name of the innermost one only if it is the
innermost one itself. -/
theorem getLast?_eq_ofPath?_iff {path : List String} (inner : path ≠ [])
    (free : ∀ outermost ∈ path.getLast?, DotFree outermost) :
    path.getLast? = ofPath? path ↔ path.length = 1 := by
  cases path with
  | nil => exact absurd rfl inner
  | cons record outer =>
    cases outer with
    | nil => simp [ofPath?, inside]
    | cons around further =>
      refine iff_of_false (fun same => ?_) (by simp)
      exact within_ne_of_dotFree (free _ same) _ _ rfl

end Name

namespace Contents

variable {camelCaseKeys : Bool} {front behind : List Site} {site : Site}
  {contents middle : Contents} {stopped : Stopped}

/-- A site inside a record lies inside a record of the top level, whose site is in front. -/
private theorem mem_front_of_inner {node : Node} (inner : site.path ≠ [])
    (split : Site.inside [] [node] = front ++ site :: behind) :
    ⟨[], node⟩ ∈ front ∧ node.declares = true ∧ site.path.getLast? = some node.localName := by
  rw [Site.inside_cons, Site.inside_nil, List.append_nil] at split
  cases front with
  | nil =>
    obtain ⟨rfl, _⟩ := List.cons.inj split
    exact absurd rfl inner
  | cons first front =>
    obtain ⟨rfl, below⟩ := List.cons.inj split
    by_cases kind : node.kind = .record
    · rw [if_pos kind] at below
      have within : site ∈ Site.inside [node.localName] node.members := by simp [below]
      obtain ⟨deeper, path⟩ := Site.path_suffix within
      exact ⟨List.mem_cons_self, declares_of_record kind, path ▸ List.getLast?_concat⟩
    · simp [kind] at below

/-- The second pass stops inside the record of the top level that the site stopping it lies in. -/
theorem fillAll_eq_error_of_inner {nodes : List Node} (inner : site.path ≠ [])
    (split : Site.inside [] nodes = front ++ site :: behind)
    (visited : visitAll camelCaseKeys front contents = .ok middle)
    (stops : visit camelCaseKeys site middle = .error stopped) :
    ∃ node, fillAll camelCaseKeys nodes contents = .error ⟨node, stopped⟩ ∧ ⟨[], node⟩ ∈ front ∧
      node.declares = true ∧ site.path.getLast? = some node.localName := by
  induction nodes generalizing front contents with
  | nil => simp [Site.inside_nil] at split
  | cons node rest ih =>
    have parts : Site.inside [] (node :: rest) = Site.inside [] [node] ++ Site.inside [] rest :=
      Site.inside_append [] [node] rest
    rw [parts] at split
    cases Site.split_append split with
    | inl here =>
      obtain ⟨more, here⟩ := here
      have fails : fillTop camelCaseKeys node contents = .error stopped := by
        rw [fillTop_eq_visitAll]
        exact visitAll_eq_error_iff.mpr ⟨front, site, more, middle, here, visited, stops⟩
      refine ⟨node, ?_, mem_front_of_inner inner here⟩
      rw [fillAll, fails]
    | inr beyond =>
      obtain ⟨more, rfl, later⟩ := beyond
      obtain ⟨filled, first, second⟩ := visitAll_append_eq_ok_iff.mp visited
      rw [← fillTop_eq_visitAll] at first
      obtain ⟨top, fails, listed, around⟩ := ih later second
      refine ⟨top, ?_, List.mem_append_right _ listed, around⟩
      rw [fillAll, first]
      exact fails

end Contents

/-- A compile of the schema fails at this site: it is the first one that is at fault. -/
structure FailsAt (settings : Settings) (schema : Schema) (front : List Site) (site : Site)
    (error : CompileError) : Prop where
  split : ∃ behind, Site.inside [] schema = front ++ site :: behind
  faultless : Site.Faultless settings (shellsOf settings schema).names front
  fault : site.Fault settings (shellsOf settings schema).names front error

/-- The node of the site declares nothing and has a first child. If it is at fault, it is a property
and its fault is reported inside this property. -/
def Site.InProperty (site : Site) : Prop :=
  site.node.declares = false ∧ site.node.children ≠ []

instance (site : Site) : Decidable site.InProperty :=
  inferInstanceAs (Decidable (_ ∧ _))

/-- The scope of an error is the innermost record inside a property, and else the scope at hand. -/
theorem Site.Reports.scopeWithin_eq {site : Site} {error : CompileError}
    (reports : site.Reports error) (scope : Option String) :
    error.scopeWithin scope = if site.InProperty then Name.ofPath? site.path else scope := by
  by_cases inProperty : site.InProperty
  · rw [if_pos inProperty]
    obtain ⟨owner, _, _, around, _, rfl, _⟩ := reports.within inProperty.1 inProperty.2
    exact around.symm
  · rw [if_neg inProperty]
    have bare : site.node.declares = true ∨ site.node.children = [] := by
      rw [Site.InProperty, not_and_or, not_not] at inProperty
      exact inProperty.imp_left (by simp)
    obtain ⟨_, _, rfl⟩ | rfl := reports.bare bare <;> rfl

/-- The scope of a diagnostic is the given one, unless the error brings its own. -/
theorem CompileError.scope_toDiagnostic (error : CompileError) (scope : Option String) :
    (error.toDiagnostic scope).location.bind Location.scope = error.scopeWithin scope := by
  rw [toDiagnostic, Diagnostic.make]
  cases within : error.scopeWithin scope with
  | none => split <;> simp
  | some owner => simp [Location.isEmpty]

namespace FailsAt

variable {settings : Settings} {schema : Schema} {front : List Site} {site : Site}
  {error : CompileError}

/-- Whatever faults a compile gets to, it has got through the sites in front of it. -/
theorem exists_getsTo (fails : FailsAt settings schema front site error)
    (placed : WellPlaced schema) (distinct : settings.builtinNames.Nodup) :
    ∃ contents, GetsTo settings schema front site contents := by
  obtain ⟨behind, split⟩ := fails.split
  obtain ⟨contents, visited⟩ :=
    (exists_visitAll_iff_faultless placed distinct split).mpr fails.faultless
  exact ⟨contents, placed, distinct, fails.split, visited⟩

/-- The second pass stops inside the outermost record around the site. -/
theorem exists_halt (fails : FailsAt settings schema front site error)
    (placed : WellPlaced schema) (distinct : settings.builtinNames.Nodup)
    (inner : site.path ≠ []) :
    ∃ node contents,
      Contents.ofSchema settings.camelCaseKeys (shellsOf settings schema) schema =
        .error ⟨node, error, contents⟩ ∧
      node.HasLocalName ∧ site.path.getLast? = some node.localName := by
  obtain ⟨contents, gets⟩ := fails.exists_getsTo placed distinct
  obtain ⟨behind, split⟩ := fails.split
  have stops := gets.visit_eq_error_iff_fault.mpr ⟨fails.fault, rfl⟩
  obtain ⟨node, halts, listed, declares, outermost⟩ :=
    Contents.fillAll_eq_error_of_inner inner split gets.visited stops
  exact ⟨node, contents, halts, (gets.front_fits.1 _ listed).named declares, outermost⟩

/-- A fault of a declaration with a first child is one that the first pass rejects it for. -/
theorem rejects (fails : FailsAt settings schema front site error)
    (declares : site.node.declares = true) (children : site.node.children ≠ []) :
    Shells.Rejects ⟨settings.builtins⟩ (front.filter fun other => other.node.declares) site
      error := by
  cases fails.fault with
  | name _ fault =>
    obtain ⟨nameless, _⟩ | ⟨_, _, named, unread⟩ := nameFault_iff.mp fault
    · exact absurd nameless children
    · exact .unfit named unread
  | taken _ named taken =>
    refine .taken named ?_
    rw [Registry.names, Settings.map_name_builtins]
    refine taken.imp_right fun inFront => ?_
    obtain ⟨other, listed, declares, same⟩ := inFront
    exact ⟨other, List.mem_filter.mpr ⟨listed, declares⟩, same⟩
  | property kind => simp [Node.declares, kind] at declares

/-- The first pass has registered all declarations in front of the site and skips that of the site
first, in the scope of the innermost record around it. -/
theorem skipsFirst (fails : FailsAt settings schema front site error)
    (placed : WellPlaced schema) (distinct : settings.builtinNames.Nodup)
    (declares : site.node.declares = true) (children : site.node.children ≠ []) :
    Attempt.SkipsFirst (Shells.attempts none schema ⟨settings.builtins⟩)
      (front.filter fun other => other.node.declares) site ⟨error, Name.ofPath? site.path⟩ := by
  obtain ⟨contents, gets⟩ := fails.exists_getsTo placed distinct
  obtain ⟨behind, split⟩ := fails.split
  obtain ⟨done, walk⟩ := Shells.walk_attempts schema (hasScope_none ⟨settings.builtins⟩)
  have top : Registry.Stands ⟨settings.builtins⟩ [] none := rfl
  exact walk.skipsFirst placed top (Site.declarations_of_split split declares) gets.registrable
    (fails.rejects declares children)

end FailsAt

/-- The first skip of all is the one that the attempts come to behind those that succeed. -/
theorem Attempt.SkipsFirst.head?_skips {log : List Attempt} {before : List Site} {site : Site}
    {skip : Skip} (skips : SkipsFirst log before site skip) :
    (log.filterMap skip?).head? = some skip := by
  obtain ⟨early, attempt, late, rfl, registered, _, outcome⟩ := skips
  have none : early.filterMap skip? = [] := by
    refine List.filterMap_eq_nil_iff.mpr fun other listed => ?_
    obtain ⟨id, success⟩ := registered.outcomes other listed
    rw [skip?, success]
  have isSkip : attempt.skip? = some skip := by rw [skip?, outcome]
  rw [List.filterMap_append, none, List.nil_append, List.filterMap_cons_some isSkip,
    List.head?_cons]

/-- The report of a compile that is stopped adds the diagnostic of the error, in the scope of the
node of the top level, to those of the first pass. -/
theorem report_of_halt {settings : Settings} (distinct : settings.builtinNames.Nodup)
    {schema : Schema} {halt : Contents.Halt}
    (halts : Contents.ofSchema settings.camelCaseKeys (shellsOf settings schema) schema =
      .error halt) (moment : Instant) :
    (compile settings moment schema).report =
      (Report.afterAttempts moment (Shells.attempts none schema ⟨settings.builtins⟩)).fail
        (halt.stopped.error.toDiagnostic halt.node.firstChildText?) := by
  obtain ⟨_, report⟩ := Shells.ofSchema_attempts settings schema moment
  rw [shellsOf] at halts
  rw [compile, withBuiltins_eq_ok_iff.mpr ⟨distinct, rfl⟩]
  dsimp only
  rw [report, halts]
  rfl

section Compile

variable {settings : Settings} {schema : Schema}

/-- A compile fails exactly if some site is at fault, and with this error. -/
theorem exists_failsAt_iff (placed : WellPlaced schema) (distinct : settings.builtinNames.Nodup)
    {moment : Instant} {error : CompileError} :
    (∃ front site, FailsAt settings schema front site error) ↔
      (compile settings moment schema).result = .error error := by
  rw [result_eq_error_iff distinct, visitAll_eq_error_iff_firstFault placed distinct]
  constructor
  · intro fails
    obtain ⟨front, site, ⟨behind, split⟩, faultless, fault⟩ := fails
    exact ⟨front, site, behind, split, faultless, fault⟩
  · intro first
    obtain ⟨front, site, behind, split, faultless, fault⟩ := first
    exact ⟨front, site, ⟨behind, split⟩, faultless, fault⟩

/-- What the report of a compile says that fails at a site inside a record. -/
structure Report.Locates (report : Report) (site : Site) (error : CompileError) : Prop where
  /-- Outside of properties the scope is the outermost record around the site. -/
  fatal : report.fatal? = some (error.toDiagnostic site.path.getLast?)
  /-- It is the innermost one inside a property, and if there is no other record around. -/
  innermost :
    (error.toDiagnostic site.path.getLast?).location.bind Location.scope =
        Name.ofPath? site.path ↔ site.InProperty ∨ site.path.length = 1
  /-- The first diagnostic of all is that of the skip of the declaration, which has the innermost
  record as its scope. -/
  skipped : site.node.declares = true → site.node.children ≠ [] →
    report.diagnostics.head? = some (Skip.diagnostic ⟨error, Name.ofPath? site.path⟩) ∧
      (report.fatal? = some (Skip.diagnostic ⟨error, Name.ofPath? site.path⟩) ↔
        site.path.length = 1)

/-- The fault of a nested declaration is located by the report of the compile. -/
theorem FailsAt.locates {front : List Site} {site : Site} {error : CompileError}
    (fails : FailsAt settings schema front site error) (placed : WellPlaced schema)
    (distinct : settings.builtinNames.Nodup) (inner : site.path ≠ []) (moment : Instant) :
    (compile settings moment schema).report.Locates site error := by
  obtain ⟨node, contents, halts, named, outermost⟩ := fails.exists_halt placed distinct inner
  have reports := fails.fault.reports
  have isName : node.firstChildText? = site.path.getLast? := by
    obtain ⟨first, members, children, _⟩ := named
    rw [outermost, Node.localName, firstChildText?, children]
    rfl
  have apart : site.path.getLast? = Name.ofPath? site.path ↔ site.path.length = 1 := by
    refine Name.getLast?_eq_ofPath?_iff inner fun record isLast => ?_
    obtain rfl := Option.some.inj (outermost.symm.trans isLast)
    exact named.dotFree
  have report := report_of_halt distinct halts moment
  rw [isName] at report
  have fatal : (compile settings moment schema).report.fatal? =
      some (error.toDiagnostic site.path.getLast?) := by
    rw [report]
    exact List.getLast?_concat
  refine ⟨fatal, ?_, fun declares children => ?_⟩
  · rw [CompileError.scope_toDiagnostic, reports.scopeWithin_eq, ← apart]
    split <;> simp [*]
  · have skips := (fails.skipsFirst placed distinct declares children).head?_skips
    have outside : ¬ site.InProperty := fun within => by simp [within.1] at declares
    refine ⟨?_, ?_⟩
    · rw [report]
      change (List.map Skip.diagnostic _ ++ _).head? = _
      rw [List.head?_append, List.head?_map, skips]
      rfl
    · rw [fatal, Option.some.injEq, ← apart]
      refine ⟨fun same => ?_, fun same => same ▸ rfl⟩
      have scopes := congrArg (fun diagnostic => diagnostic.location.bind Location.scope) same
      simpa only [Skip.diagnostic, CompileError.scope_toDiagnostic, reports.scopeWithin_eq,
        if_neg outside] using scopes

end Compile

/-- A compile of a well-placed schema that fails at a site inside a record reports the innermost
record around it as the scope exactly if the fault is inside a property or no other record is
around. If the site holds a declaration with a first child, the first pass has already skipped it
with the innermost record as the scope, and the fatal diagnostic is the same again only if no other
record is around. -/
theorem compile_locates_fault (settings : Settings) (moment : Instant) (schema : Schema)
    (placed : WellPlaced schema) (distinct : settings.builtinNames.Nodup) :
    (∀ error, (compile settings moment schema).result = .error error ↔
      ∃ front site, FailsAt settings schema front site error) ∧
    ∀ front (site : Site) error, FailsAt settings schema front site error → site.path ≠ [] →
      (compile settings moment schema).report.Locates site error ∧
      (site.node.declares = true → site.node.children ≠ [] →
        Attempt.SkipsFirst (Shells.attempts none schema ⟨settings.builtins⟩)
          (front.filter fun other => other.node.declares) site
          ⟨error, Name.ofPath? site.path⟩) := by
  refine ⟨fun error => (exists_failsAt_iff placed distinct).symm, ?_⟩
  intro front site error fails inner
  exact ⟨fails.locates placed distinct inner moment, fails.skipsFirst placed distinct⟩

/-- A record that declares an enumeration twice. -/
def crowdedItem : Node :=
  record "Item" [enumeration "Kind" ["bulk"], enumeration "Kind" ["single"]]

/-- The record inside another one. -/
def crowdedSchema : Schema :=
  [record "Order" [crowdedItem]]

/-- A name that is taken twice in a nested record is located there. -/
theorem compile_locates_fault_crowdedSchema :
    WellPlaced crowdedSchema ∧ Settings.default.builtinNames.Nodup ∧
      (compile Settings.default Instant.epoch crowdedSchema).report.Locates
        ⟨["Item", "Order"], enumeration "Kind" ["single"]⟩
        (.duplicateType "Order.Item.Kind") := by
  have placed : WellPlaced crowdedSchema := by decide
  have distinct : Settings.default.builtinNames.Nodup := by decide
  have split : Site.inside [] crowdedSchema =
      [⟨[], record "Order" [crowdedItem]⟩, ⟨["Order"], crowdedItem⟩,
        ⟨["Item", "Order"], enumeration "Kind" ["bulk"]⟩] ++
      [⟨["Item", "Order"], enumeration "Kind" ["single"]⟩] := rfl
  have fails : FailsAt Settings.default crowdedSchema _
      ⟨["Item", "Order"], enumeration "Kind" ["single"]⟩ (.duplicateType "Order.Item.Kind") :=
    { split := ⟨[], split⟩
      faultless := (exists_visitAll_iff_faultless placed distinct split).mp ⟨_, rfl⟩
      fault := .taken rfl (by decide) (.inr ⟨⟨["Item", "Order"], enumeration "Kind" ["bulk"]⟩,
        by simp, rfl, rfl⟩) }
  obtain ⟨_, locates⟩ :=
    compile_locates_fault Settings.default Instant.epoch crowdedSchema placed distinct
  exact ⟨placed, distinct, (locates _ _ _ fails (by simp)).1⟩

/-- The record that the fatal diagnostic reports is not the one that the skip of the same
declaration has been recorded in. -/
theorem scopes_differ_crowdedSchema :
    WellPlaced crowdedSchema ∧ Settings.default.builtinNames.Nodup ∧
      ∃ skipped fatal,
        (compile Settings.default Instant.epoch crowdedSchema).report.diagnostics =
          [skipped, fatal] ∧
        (compile Settings.default Instant.epoch crowdedSchema).report.fatal? = some fatal ∧
        skipped.location.bind Location.scope = some "Order.Item" ∧
        fatal.location.bind Location.scope = some "Order" :=
  ⟨by decide, by decide, _, _, rfl, rfl, rfl, rfl⟩

end SchemaGraph
