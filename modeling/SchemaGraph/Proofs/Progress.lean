import SchemaGraph.Proofs.Verdicts

/-!
# How far the second pass gets

The second pass visits the sites in document order, up to the first one that it cannot visit. A
visit that fails leaves the contents as they were, so what the second pass has done when it ends
or is stopped is what the visits of the sites in front have done.
-/

namespace SchemaGraph

open Node Registry

/-- The shells that the first pass over a schema leaves behind. -/
def shellsOf (settings : Settings) (schema : Schema) : Registry :=
  (Shells.ofSchema ⟨settings.builtins⟩ schema).registry

namespace Contents

/-- What the second pass has done when it ends or is stopped. -/
def reached : Except Halt Contents → Contents
  | .ok contents => contents
  | .error halt => halt.stopped.contents

variable {camelCaseKeys : Bool} {site : Site} {contents left : Contents} {error : CompileError}

/-- Visits stop at the first site that cannot be visited. -/
theorem visitAll_eq_error_iff {sites : List Site} {stopped : Stopped} :
    visitAll camelCaseKeys sites contents = .error stopped ↔
      ∃ front site behind middle, sites = front ++ site :: behind ∧
        visitAll camelCaseKeys front contents = .ok middle ∧
        visit camelCaseKeys site middle = .error stopped := by
  constructor
  · intro failure
    induction sites generalizing contents with
    | nil => simp [visitAll] at failure
    | cons site rest ih =>
      cases first : visit camelCaseKeys site contents with
      | error other =>
        rw [visitAll, first] at failure
        obtain rfl := Except.error.inj failure
        exact ⟨[], site, rest, contents, rfl, rfl, first⟩
      | ok next =>
        rw [visitAll, first] at failure
        obtain ⟨front, last, behind, middle, rfl, visited, stops⟩ := ih failure
        refine ⟨site :: front, last, behind, middle, rfl, ?_, stops⟩
        exact visitAll_cons_eq_ok_iff.mpr ⟨next, first, visited⟩
  · intro split
    obtain ⟨front, last, behind, middle, rfl, visited, stops⟩ := split
    rw [visitAll_append, visited]
    simp only [visitAll, stops]

/-- How a visit fails. -/
inductive Fails (camelCaseKeys : Bool) (site : Site) (contents : Contents) : CompileError → Prop
  | unnamed (declares : site.node.declares = true) (nameless : site.node.children = []) :
      Fails camelCaseKeys site contents (.atNode site.node (.declarationWithoutName site.node.kind))
  | misnamed {name : Node} {members : List Node} {error : CompileError}
      (declares : site.node.declares = true) (children : site.node.children = name :: members)
      (unread : declarationName name = .error error) : Fails camelCaseKeys site contents error
  | missing (declares : site.node.declares = true) (named : site.node.HasLocalName)
      (missing : contents.registry.find? site.name = none) :
      Fails camelCaseKeys site contents (.typeNotFound site.name none)
  | taken {id : TypeId} {declaration : Declaration} (declares : site.node.declares = true)
      (named : site.node.HasLocalName) (found : contents.registry.find? site.name = some id)
      (shell : contents.registry.declarations[id]? = some declaration)
      (taken : declaration.kind ≠ site.node.declaredKind ∨ id ∈ contents.filled) :
      Fails camelCaseKeys site contents (.duplicateType site.name)
  | property {owner : TypeId} {error : CompileError} (kind : site.node.kind = .property)
      (scope : contents.registry.scopeOf site.path = some owner)
      (unfilled : (Change.fillProperty camelCaseKeys owner site.node).run contents.registry =
        .error error contents.registry) :
      Fails camelCaseKeys site contents error

/-- A claim is refused for the name, or since no shell of the kind is left under it. -/
theorem claim_eq_error_iff {path : List String} (knows : contents.registry.Knows path)
    {kind : DeclarationKind} {name : Node} :
    contents.claim (contents.registry.scopeOf path) kind name = .error error ↔
      declarationName name = .error error ∨ name.IsLocalName ∧
        (contents.registry.find? (Name.inside path name.text) = none ∧
            error = .typeNotFound (Name.inside path name.text) none ∨
          ∃ id declaration, contents.registry.find? (Name.inside path name.text) = some id ∧
            contents.registry.declarations[id]? = some declaration ∧
            (declaration.kind ≠ kind ∨ id ∈ contents.filled) ∧
            error = .duplicateType (Name.inside path name.text)) := by
  rw [claim]
  cases read : declarationName name with
  | error other => simp [(declarationName_eq_error read).1]
  | ok text =>
    obtain ⟨fit, rfl⟩ := declarationName_eq_ok_iff.mp read
    simp only [knows.qualify, Registry.lookup, Registry.get, fit, true_and, reduceCtorEq, false_or]
    cases found : contents.registry.find? (Name.inside path name.text) with
    | none => simp [CompileError.ofRegistry, eq_comm]
    | some id =>
      obtain ⟨declaration, atId, _⟩ := name_of_find? found
      simp only [atId, Option.some.injEq, reduceCtorEq, false_and, false_or, ↓existsAndEq, true_and]
      by_cases refused : declaration.kind ≠ kind ∨ id ∈ contents.filled
      · rw [if_pos refused, Except.error.injEq]
        exact ⟨fun same => ⟨refused, same.symm⟩, fun same => same.2.symm⟩
      · simp [refused]

/-- Without a first child a declaration cannot be visited. -/
private theorem visit_error_nameless (declares : site.node.declares = true)
    (nameless : site.node.children = []) :
    visit camelCaseKeys site contents = .error ⟨error, left⟩ ↔
      Fails camelCaseKeys site contents error ∧ left = contents := by
  have stops : visit camelCaseKeys site contents =
      .error ⟨.atNode site.node (.declarationWithoutName site.node.kind), contents⟩ := by
    cases declares_iff.mp declares with
    | inl kind => simp only [visit, kind, nameless]
    | inr kind => simp only [visit, fillEnumeration, kind, nameless]
  rw [stops, Except.error.injEq, Stopped.mk.injEq]
  refine and_congr ⟨fun same => same ▸ .unnamed declares nameless, fun fails => ?_⟩ eq_comm
  cases fails with
  | unnamed => rfl
  | misnamed _ children => simp [nameless] at children
  | missing _ named | taken _ named => exact absurd nameless named.children_ne_nil
  | property kind => simp [Node.declares, kind] at declares

/-- With a first child a declaration cannot be visited if its claim is refused. -/
private theorem visit_error_claim (knows : contents.registry.Knows site.path)
    (declares : site.node.declares = true) {name : Node} {members : List Node}
    (children : site.node.children = name :: members) :
    visit camelCaseKeys site contents = .error ⟨error, left⟩ ↔
      contents.claim (contents.registry.scopeOf site.path) site.node.declaredKind name =
        .error error ∧ left = contents := by
  cases declares_iff.mp declares with
  | inl kind =>
    simp only [visit, kind, children, declaredKind, if_true]
    cases contents.claim (contents.registry.scopeOf site.path) .record name <;> simp [eq_comm]
  | inr kind =>
    simp only [visit, fillEnumeration, kind, children, declaredKind, reduceCtorEq, if_false]
    cases claim : contents.claim (contents.registry.scopeOf site.path) .enumeration name with
    | error other => simp [eq_comm]
    | ok result =>
      -- What is claimed as an enumeration is one.
      obtain ⟨id, claimed⟩ := result
      obtain ⟨_, _, ⟨declaration, atId, isEnumeration⟩, _, rfl⟩ := (claim_eq_ok_iff knows).mp claim
      cases declaration with
      | enumeration type => simp [enumeration?_eq_some_iff.mpr atId]
      | _ => simp [Declaration.kind] at isEnumeration

/-- A visit of a named declaration fails for its own fault, and before anything is changed. -/
private theorem visit_error_named (knows : contents.registry.Knows site.path)
    (declares : site.node.declares = true) {name : Node} {members : List Node}
    (children : site.node.children = name :: members) :
    visit camelCaseKeys site contents = .error ⟨error, left⟩ ↔
      Fails camelCaseKeys site contents error ∧ left = contents := by
  have isName : site.name = Name.inside site.path name.text := by
    simp [Site.name, localName, firstChildText?, children]
  have named : site.node.HasLocalName ↔ name.IsLocalName := by
    simp [HasLocalName, children]
  rw [visit_error_claim knows declares children, claim_eq_error_iff knows, ← isName, ← named]
  refine and_congr_left fun _ => ⟨fun refused => ?_, fun fails => ?_⟩
  · obtain unread | ⟨named, ⟨missing, rfl⟩ | ⟨id, declaration, found, atId, taken, rfl⟩⟩ := refused
    · exact .misnamed declares children unread
    · exact .missing declares named missing
    · exact .taken declares named found atId taken
  · cases fails with
    | unnamed _ nameless => simp [children] at nameless
    | misnamed _ found unread =>
      obtain ⟨rfl, _⟩ := List.cons.inj (children.symm.trans found)
      exact .inl unread
    | missing _ named missing => exact .inr ⟨named, .inl ⟨missing, rfl⟩⟩
    | taken _ named found atId taken => exact .inr ⟨named, .inr ⟨_, _, found, atId, taken, rfl⟩⟩
    | property kind => simp [Node.declares, kind] at declares

/-- Where nothing is declared, a visit fails for a property of a record only. -/
theorem fails_iff_of_silent (silent : site.node.declares = false) :
    Fails camelCaseKeys site contents error ↔ site.node.kind = .property ∧
      ∃ owner, contents.registry.scopeOf site.path = some owner ∧
        (Change.fillProperty camelCaseKeys owner site.node).run contents.registry =
          .error error contents.registry := by
  constructor
  · intro fails
    cases fails with
    | property kind scope unfilled => exact ⟨kind, _, scope, unfilled⟩
    | unnamed declares | misnamed declares | missing declares | taken declares =>
      simp [silent] at declares
  · intro ⟨kind, _, scope, unfilled⟩
    exact .property kind scope unfilled

/-- A visit of a node that declares nothing fails as its site is at fault, and leaves the contents
as they were. -/
private theorem visit_error_silent (silent : site.node.declares = false) :
    visit camelCaseKeys site contents = .error ⟨error, left⟩ ↔
      Fails camelCaseKeys site contents error ∧ left = contents := by
  rw [fails_iff_of_silent silent]
  cases kind : site.node.kind with
  | record | enumeration => simp [Node.declares, kind] at silent
  | property =>
    cases scope : contents.registry.scopeOf site.path with
    | none => simp [visit, kind, scope]
    | some owner =>
      simp only [visit, kind, scope, Option.some.injEq, true_and, ↓existsAndEq]
      cases result : (Change.fillProperty camelCaseKeys owner site.node).run contents.registry with
      | ok done grown => simp
      | error other reached =>
        obtain rfl := Change.registry_of_unfilled result
        have same : contents.withRegistry contents.registry = contents := rfl
        simp [same, eq_comm]
  | comment => cases scope : contents.registry.scopeOf site.path <;> simp [visit, kind, scope]
  | _ => simp [visit, kind]

/-- A visit fails exactly in these ways, and leaves the contents as they were. -/
theorem visit_eq_error_iff (knows : contents.registry.Knows site.path) :
    visit camelCaseKeys site contents = .error ⟨error, left⟩ ↔
      Fails camelCaseKeys site contents error ∧ left = contents := by
  cases declares : site.node.declares with
  | true =>
    cases children : site.node.children with
    | nil => exact visit_error_nameless declares children
    | cons name members => exact visit_error_named knows declares children
  | false => exact visit_error_silent declares

/-- What the second pass has done, whether or not it is stopped, is what visits of the first sites
have done. -/
theorem visitAll_reached (camelCaseKeys : Bool) (shells : Registry) (schema : Schema) :
    ∃ front behind, Site.inside [] schema = front ++ behind ∧
      visitAll camelCaseKeys front ⟨shells, []⟩ =
        .ok (reached (ofSchema camelCaseKeys shells schema)) := by
  have flat := fillAll_eq_visitAll camelCaseKeys schema ⟨shells, []⟩
  rw [ofSchema]
  cases result : fillAll camelCaseKeys schema ⟨shells, []⟩ with
  | ok contents =>
    rw [result] at flat
    exact ⟨_, [], (List.append_nil _).symm, flat.symm⟩
  | error halt =>
    rw [result] at flat
    obtain ⟨front, site, behind, middle, split, visited, stops⟩ :=
      visitAll_eq_error_iff.mp flat.symm
    have knows := (knows_of_split split (knows_nil _) visited).of_bare (bare_of_visitAll visited)
    obtain ⟨_, same⟩ := (visit_eq_error_iff knows).mp stops
    refine ⟨front, site :: behind, split, ?_⟩
    rw [visited, reached, same]

end Contents

/-- The result of a compile is what the second pass makes of the shells. -/
theorem result_eq {settings : Settings} (distinct : settings.builtinNames.Nodup) (moment : Instant)
    (schema : Schema) :
    (compile settings moment schema).result =
      ((Contents.ofSchema settings.camelCaseKeys (shellsOf settings schema) schema).mapError
        fun halt => halt.stopped.error).map Contents.registry := by
  rw [compile, withBuiltins_eq_ok_iff.mpr ⟨distinct, rfl⟩]
  simp only [shellsOf]
  cases Contents.ofSchema settings.camelCaseKeys
    (Shells.ofSchema ⟨settings.builtins⟩ schema).registry schema <;> rfl

/-- A compile fails exactly if the visits of the sites are stopped, and for the same reason. -/
theorem result_eq_error_iff {settings : Settings} (distinct : settings.builtinNames.Nodup)
    {moment : Instant} {schema : Schema} {error : CompileError} :
    (compile settings moment schema).result = .error error ↔
      ∃ left, Contents.visitAll settings.camelCaseKeys (Site.inside [] schema)
        ⟨shellsOf settings schema, []⟩ = .error ⟨error, left⟩ := by
  rw [result_eq distinct, Contents.ofSchema, ← Contents.fillAll_eq_visitAll]
  cases Contents.fillAll settings.camelCaseKeys schema ⟨shellsOf settings schema, []⟩ with
  | ok contents => simp [Except.mapError, Except.map]
  | error halt =>
    obtain ⟨_, ⟨_, _⟩⟩ := halt
    simp [Except.mapError, Except.map]

end SchemaGraph
