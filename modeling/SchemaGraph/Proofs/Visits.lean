import SchemaGraph.Proofs.FirstPass
import SchemaGraph.Proofs.TypeGrammar

/-!
# The second pass visits the sites in order

The second pass enters the members of a record while it works on the record. Laid out flat it
visits the sites of the schema in document order, whatever the shape of the trees, and every
visit finds the record around its site by the qualified name of the path. A visit changes the
contents of one declaration at most, so what the next visits look up stays as it is.
-/

namespace SchemaGraph

open Node

/-- Append a property, which may be the identity. -/
def RecordType.gain (property : Property) (identity : Bool) (record : RecordType) : RecordType :=
  { record with
    properties := record.properties ++ [property]
    identity := if identity then some record.properties.length else record.identity }

namespace Registry

/-- The id of the record that a path leads to. -/
def scopeOf (registry : Registry) (path : List String) : Option TypeId :=
  (Name.ofPath? path).bind registry.find?

/-- The record that a path leads to is registered. -/
def Knows (registry : Registry) (path : List String) : Prop :=
  ∀ name, Name.ofPath? path = some name →
    ∃ id, registry.find? name = some id ∧ registry.HasRecord id

/-- Registries of the same shells have declarations at the same ids. -/
theorem exists_getElem?_of_bare {registry registry' : Registry}
    (same : registry'.bare = registry.bare) {id : TypeId} {declaration : Declaration}
    (found : registry.declarations[id]? = some declaration) :
    ∃ declaration', registry'.declarations[id]? = some declaration' ∧
      declaration'.bare = declaration.bare := by
  have atId := getElem?_bare registry' id
  rw [same, getElem?_bare, found, Option.map_some] at atId
  exact Option.map_eq_some_iff.mp atId.symm

/-- Registries of the same shells keep what the other one registers. -/
theorem Keeps.of_bare {registry registry' : Registry} (same : registry'.bare = registry.bare) :
    registry.Keeps registry' := by
  refine ⟨fun id declaration found => ?_⟩
  obtain ⟨kept, keptFound, bare⟩ := exists_getElem?_of_bare same found
  refine ⟨kept, keptFound, ?_, ?_, ?_⟩
  · rw [← Declaration.name_bare, bare, Declaration.name_bare]
  · rw [← Declaration.kind_bare, bare, Declaration.kind_bare]
  · rw [← Declaration.parent_bare, bare, Declaration.parent_bare]

/-- The order of parents and children is read off the shells. -/
theorem ParentsPrecede.of_bare {registry registry' : Registry}
    (same : registry'.bare = registry.bare) (precede : registry.ParentsPrecede) :
    registry'.ParentsPrecede := by
  intro id declaration parent found nested
  obtain ⟨shell, atShell, bare⟩ := exists_getElem?_of_bare same.symm found
  refine precede id shell parent atShell ?_
  rw [← Declaration.parent_bare, bare, Declaration.parent_bare, nested]

/-- Registries of the same shells have records under the same ids. -/
theorem HasRecord.of_bare {registry registry' : Registry} (same : registry'.bare = registry.bare)
    {id : TypeId} (known : registry.HasRecord id) : registry'.HasRecord id :=
  (Keeps.of_bare same).hasRecord known

/-- Registries of the same shells find the same id under a name. -/
theorem find?_of_bare {registry registry' : Registry} (same : registry'.bare = registry.bare) :
    registry'.find? = registry.find? := by
  funext name
  rw [← find?_bare, same, find?_bare]

/-- In registries of the same shells a path leads to the same scope. -/
theorem scopeOf_of_bare {registry registry' : Registry} (same : registry'.bare = registry.bare)
    (path : List String) : registry'.scopeOf path = registry.scopeOf path := by
  rw [scopeOf, scopeOf, find?_of_bare same]

/-- In registries of the same shells records stand along the same paths. -/
theorem Knows.of_bare {registry registry' : Registry} (same : registry'.bare = registry.bare)
    {path : List String} (knows : registry.Knows path) : registry'.Knows path := by
  intro name named
  obtain ⟨id, found, record⟩ := knows name named
  exact ⟨id, by rw [find?_of_bare same, found], record.of_bare same⟩

/-- The top level is known. -/
theorem knows_nil (registry : Registry) : registry.Knows [] := by
  intro name named
  simp [Name.ofPath?] at named

/-- A path is known as soon as its record is found under its name. -/
theorem knows_of_scopeOf {registry : Registry} {path : List String} {id : TypeId}
    (scope : registry.scopeOf path = some id) (record : registry.HasRecord id) :
    registry.Knows path := by
  intro name named
  rw [scopeOf, named] at scope
  exact ⟨id, scope, record⟩

/-- A known scope is a record. -/
theorem Knows.hasRecord {registry : Registry} {path : List String} (knows : registry.Knows path)
    {id : TypeId} (scope : registry.scopeOf path = some id) : registry.HasRecord id := by
  obtain ⟨name, named, found⟩ := Option.bind_eq_some_iff.mp scope
  obtain ⟨other, found', record⟩ := knows name named
  rw [found, Option.some.injEq] at found'
  exact found' ▸ record

/-- A scope that a path leads to has the name that the path spells. -/
theorem Knows.scopeName {registry : Registry} {path : List String} (knows : registry.Knows path) :
    registry.scopeName (registry.scopeOf path) = .ok (Name.ofPath? path) := by
  cases named : Name.ofPath? path with
  | none =>
    rw [scopeOf, named]
    rfl
  | some name =>
    obtain ⟨id, found, _⟩ := knows name named
    have atId : registry.nameOf id = .ok name := nameOf_eq_ok_iff.mpr (name_of_find? found)
    rw [scopeOf, named, Option.bind_some, found, Registry.scopeName, atId]
    rfl

/-- Inside of it names are qualified by the path. -/
theorem Knows.qualify {registry : Registry} {path : List String} (knows : registry.Knows path)
    (localName : String) :
    registry.qualify (registry.scopeOf path) localName = .ok (Name.inside path localName) := by
  rw [Registry.qualify, knows.scopeName]
  cases path <;> rfl

section Bare

variable {registry : Registry}

/-- A change of contents changes no shell. -/
theorem bare_onRecord {id : TypeId} {change : RecordType → RecordType}
    (keeps : ∀ record : RecordType,
      (Declaration.record (change record)).bare = (Declaration.record record).bare) :
    (registry.onRecord id change).bare = registry.bare :=
  congrArg Registry.mk (map_onRecord registry id change Declaration.bare keeps)

/-- A property is part of the contents. -/
theorem bare_gain (id : TypeId) (property : Property) (identity : Bool) :
    (registry.onRecord id (RecordType.gain property identity)).bare = registry.bare :=
  bare_onRecord fun _ => rfl

/-- To set a comment keeps all shells. -/
theorem bare_setComment (id : TypeId) (comment : String) :
    (registry.onRecord id (RecordType.setComment comment)).bare = registry.bare :=
  bare_onRecord fun _ => rfl

/-- To fill in the values of an enumeration keeps all shells. -/
theorem bare_fillValues (id : TypeId) (members : List Node) :
    (registry.fillValues id members).bare = registry.bare := by
  induction members generalizing registry with
  | nil => rfl
  | cons member rest ih =>
    rw [fillValues, ih]
    refine congrArg Registry.mk (map_onEnumeration registry id _ Declaration.bare fun type => ?_)
    split <;> rfl

end Bare

section Properties

variable {registry : Registry} {camelCaseKeys : Bool} {owner : TypeId}

/-- A property is read if its type is resolved, the nodes behind its type are accepted and its
type has a representation. -/
theorem readProperty_eq_ok_iff {name : String} {nodes : List Node} {property : Property}
    {identity : Bool} :
    registry.readProperty camelCaseKeys owner name nodes = .ok (property, identity) ↔
      ∃ type rest extras kind, registry.resolveType (some owner) nodes = .ok (type, rest) ∧
        Extras.read rest Extras.none = .ok extras ∧ registry.kindFor type = .ok kind ∧
        property = ⟨owner, name, type, kind, extras.comment, camelCaseKeys⟩ ∧
        identity = extras.identity := by
  rw [readProperty]
  cases resolved : registry.resolveType (some owner) nodes with
  | error error => simp
  | ok result =>
    obtain ⟨type, rest⟩ := result
    simp only [Except.ok.injEq, Prod.mk.injEq, exists_and_left, ↓existsAndEq, true_and]
    cases read : Extras.read rest Extras.none with
    | error error => simp
    | ok extras =>
      simp only [makeProperty, Except.ok.injEq, ↓existsAndEq, true_and]
      cases kind : registry.kindFor type with
      | error error => simp [Except.map]
      | ok kind => simp [Except.map, eq_comm]

/-- Only the declaration of the id decides what a change of its record does. -/
theorem onRecord_congr {id : TypeId} {record : RecordType}
    {change change' : RecordType → RecordType}
    (found : registry.declarations[id]? = some (.record record))
    (same : change record = change' record) :
    registry.onRecord id change = registry.onRecord id change' := by
  rw [Registry.mk.injEq]
  apply List.ext_getElem?
  intro other
  rw [getElem?_onRecord, getElem?_onRecord]
  by_cases here : id = other
  · subst other
    simp [found, Declaration.onRecord, same]
  · simp [here]

/-- Two changes of one record are one change of it. -/
theorem onRecord_onRecord (registry : Registry) (id : TypeId)
    (first second : RecordType → RecordType) :
    (registry.onRecord id first).onRecord id second = registry.onRecord id (second ∘ first) := by
  rw [Registry.mk.injEq]
  refine (List.modify_modify_eq ..).trans ?_
  refine congrArg (registry.declarations.modify id) (funext fun declaration => ?_)
  cases declaration <;> rfl

end Properties

end Registry

/-! ### What a change of the registry does -/

namespace Change

open Registry

variable {registry reached : Registry} {camelCaseKeys : Bool} {owner : TypeId}

section Run

variable {α : Type} {read : Registry → Except CompileError α}
  {word : Registry → CompileError → CompileError} {change : Change α} {value : α}
  {error : CompileError}

/-- A reading that succeeds leaves the registry as it is. -/
theorem run_reading_of_ok (success : read registry = .ok value) :
    (reading read).run registry = .ok value registry := by
  simp [reading, success]

/-- A reading that fails leaves the registry as it is. -/
theorem run_reading_of_error (failure : read registry = .error error) :
    (reading read).run registry = .error error registry := by
  simp only [reading, EStateM.run_bind, EStateM.run_get, failure]
  rfl

/-- A change without a fault has nothing to be worded. -/
theorem run_mapError_of_ok (success : change.run registry = .ok value reached) :
    (mapError word change).run registry = .ok value reached := by
  simp only [EStateM.run] at success
  simp only [mapError, EStateM.run, success]

/-- A fault is worded in view of the registry that comes with it, which is handed on. -/
theorem run_mapError_of_error (failure : change.run registry = .error error reached) :
    (mapError word change).run registry = .error (word reached error) reached := by
  simp only [EStateM.run] at failure
  simp only [mapError, EStateM.run, failure]

end Run

/-- A property is added to its owner if that is a record. -/
theorem run_addProperty_of_record {property : Property} (record : registry.HasRecord property.owner)
    (identity : Bool) :
    (addProperty property identity).run registry =
      .ok () (registry.onRecord property.owner (RecordType.gain property identity)) := by
  obtain ⟨type, found⟩ := record
  simp only [addProperty, EStateM.run_bind, EStateM.run_get, record?_eq_some_iff.mpr found]
  cases identity with
  | false => rfl
  | true =>
    -- The property stands at the end already when it is designated.
    simp only [EStateM.run_modify, if_true, onRecord_onRecord]
    refine congrArg (EStateM.Result.ok ()) (onRecord_congr found ?_)
    simp [RecordType.gain, RecordType.setIdentity, RecordType.addProperty]

/-- A property whose owner is no record is refused before anything is changed. -/
theorem run_addProperty_of_other {property : Property}
    (other : ¬ registry.HasRecord property.owner) (identity : Bool) :
    (addProperty property identity).run registry =
      .error (.structuralParse (.ownerNotRecord property.owner) Position.unknown) registry := by
  simp only [addProperty, EStateM.run_bind, EStateM.run_get, record?_eq_none_iff.mpr other]
  rfl

section Fill

variable {node name : Node} {nodes : List Node} {property : Property} {identity : Bool}
  {error : CompileError}

/-- A property without a name is refused. -/
theorem run_fillProperty_of_unnamed (nameless : node.children = []) :
    (fillProperty camelCaseKeys owner node).run registry =
      .error (.atNode node .propertyWithoutName) registry := by
  rw [fillProperty, nameless]
  rfl

/-- A property that cannot be read is refused. -/
theorem run_fillProperty_of_unread (children : node.children = name :: nodes)
    (unread : registry.readProperty camelCaseKeys owner name.text nodes = .error error) :
    (fillProperty camelCaseKeys owner node).run registry =
      .error (registry.inProperty owner name.text error) registry := by
  rw [fillProperty, children]
  refine run_mapError_of_error ?_
  rw [EStateM.run_bind, run_reading_of_error unread]

/-- A property that is read is added to its owner if that is a record. -/
theorem run_fillProperty_of_record (children : node.children = name :: nodes)
    (read : registry.readProperty camelCaseKeys owner name.text nodes = .ok (property, identity))
    (record : registry.HasRecord owner) :
    (fillProperty camelCaseKeys owner node).run registry =
      .ok () (registry.onRecord owner (RecordType.gain property identity)) := by
  obtain ⟨_, _, _, _, _, _, _, rfl, _⟩ := readProperty_eq_ok_iff.mp read
  rw [fillProperty, children]
  refine run_mapError_of_ok ?_
  rw [EStateM.run_bind, run_reading_of_ok read]
  exact run_addProperty_of_record record identity

/-- A property that is read is refused if its owner is no record. -/
theorem run_fillProperty_of_other (children : node.children = name :: nodes)
    (read : registry.readProperty camelCaseKeys owner name.text nodes = .ok (property, identity))
    (other : ¬ registry.HasRecord owner) :
    (fillProperty camelCaseKeys owner node).run registry =
      .error (registry.inProperty owner name.text
        (.structuralParse (.ownerNotRecord owner) Position.unknown)) registry := by
  obtain ⟨_, _, _, _, _, _, _, rfl, _⟩ := readProperty_eq_ok_iff.mp read
  rw [fillProperty, children]
  refine run_mapError_of_error ?_
  rw [EStateM.run_bind, run_reading_of_ok read]
  exact run_addProperty_of_other other identity

/-- The property of a node is added if it has a name, is read and its owner is a record. -/
theorem run_fillProperty_eq_ok_iff {done : Unit} :
    (fillProperty camelCaseKeys owner node).run registry = .ok done reached ↔
      ∃ name nodes property identity, node.children = name :: nodes ∧
        registry.readProperty camelCaseKeys owner name.text nodes = .ok (property, identity) ∧
        registry.HasRecord owner ∧
        reached = registry.onRecord owner (RecordType.gain property identity) := by
  constructor
  · intro success
    cases children : node.children with
    | nil => simp [run_fillProperty_of_unnamed children] at success
    | cons name nodes =>
      cases read : registry.readProperty camelCaseKeys owner name.text nodes with
      | error error => simp [run_fillProperty_of_unread children read] at success
      | ok result =>
        by_cases record : registry.HasRecord owner
        · rw [run_fillProperty_of_record children read record] at success
          exact ⟨name, nodes, result.1, result.2, rfl, read, record,
            (EStateM.Result.ok.inj success).2.symm⟩
        · simp [run_fillProperty_of_other children read record] at success
  · rintro ⟨name, nodes, property, identity, children, read, record, rfl⟩
    exact run_fillProperty_of_record children read record

/-- Whatever fault a property is refused for, the registry is reached as it was. -/
theorem registry_of_unfilled
    (unfilled : (fillProperty camelCaseKeys owner node).run registry = .error error reached) :
    reached = registry := by
  cases children : node.children with
  | nil =>
    rw [run_fillProperty_of_unnamed children] at unfilled
    exact (EStateM.Result.error.inj unfilled).2.symm
  | cons name nodes =>
    cases read : registry.readProperty camelCaseKeys owner name.text nodes with
    | error error =>
      rw [run_fillProperty_of_unread children read] at unfilled
      exact (EStateM.Result.error.inj unfilled).2.symm
    | ok result =>
      by_cases record : registry.HasRecord owner
      · simp [run_fillProperty_of_record children read record] at unfilled
      · rw [run_fillProperty_of_other children read record] at unfilled
        exact (EStateM.Result.error.inj unfilled).2.symm

end Fill

end Change

namespace Contents

open Registry

/-- A shell is claimed if the name is fit, a declaration of the kind has the qualified name and
it has not been met before. -/
theorem claim_eq_ok_iff {contents claimed : Contents} {path : List String}
    (knows : contents.registry.Knows path) {kind : DeclarationKind} {name : Node} {id : TypeId} :
    contents.claim (contents.registry.scopeOf path) kind name = .ok (id, claimed) ↔
      name.IsLocalName ∧ contents.registry.find? (Name.inside path name.text) = some id ∧
        (∃ declaration, contents.registry.declarations[id]? = some declaration ∧
          declaration.kind = kind) ∧
        id ∉ contents.filled ∧ claimed = { contents with filled := contents.filled ++ [id] } := by
  rw [claim]
  cases read : declarationName name with
  | error error =>
    have unfit : ¬ name.IsLocalName := fun fit => by
      rw [declarationName_eq_ok_iff.mpr ⟨fit, rfl⟩] at read
      simp at read
    simp [unfit]
  | ok text =>
    obtain ⟨fit, rfl⟩ := declarationName_eq_ok_iff.mp read
    simp only [knows.qualify, Registry.lookup, Registry.get, fit, true_and]
    cases found : contents.registry.find? (Name.inside path name.text) with
    | none => simp
    | some other =>
      obtain ⟨declaration, atId, _⟩ := name_of_find? found
      simp only [atId, Option.some.injEq]
      by_cases refused : declaration.kind ≠ kind ∨ other ∈ contents.filled
      · rw [if_pos refused]
        refine ⟨fun wrong => by simp at wrong, ?_⟩
        rintro ⟨rfl, ⟨_, atId', isKind⟩, fresh, _⟩
        rw [atId, Option.some.injEq] at atId'
        rcases refused with otherKind | met
        · exact absurd (atId' ▸ isKind) otherKind
        · exact absurd met fresh
      · rw [if_neg refused]
        rw [not_or, not_not] at refused
        constructor
        · rintro ⟨rfl, rfl⟩
          exact ⟨rfl, ⟨declaration, atId, refused.1⟩, refused.2, rfl⟩
        · rintro ⟨rfl, _, _, rfl⟩
          rfl

/-- Visit a site: a declaration claims its shell, and an enumeration, a property or a comment
changes the contents of the declaration that it belongs to. -/
def visit (camelCaseKeys : Bool) (site : Site) (contents : Contents) : Except Stopped Contents :=
  let scope := contents.registry.scopeOf site.path
  match site.node.kind with
  | .record =>
    match site.node.children with
    | [] => .error ⟨.atNode site.node (.declarationWithoutName .record), contents⟩
    | name :: _ =>
      match contents.claim scope .record name with
      | .ok (_, claimed) => .ok claimed
      | .error error => .error ⟨error, contents⟩
  | .enumeration => fillEnumeration scope site.node contents
  | .property =>
    match scope with
    | none => .ok contents
    | some owner =>
      match (Change.fillProperty camelCaseKeys owner site.node).run contents.registry with
      | .ok _ registry => .ok (contents.withRegistry registry)
      | .error error registry => .error ⟨error, contents.withRegistry registry⟩
  | .comment =>
    match scope with
    | none => .ok contents
    | some owner =>
      .ok (contents.withRegistry
        (contents.registry.onRecord owner (.setComment site.node.commentText)))
  | _ => .ok contents

/-- Visit sites one after the other, up to the first fault. -/
def visitAll (camelCaseKeys : Bool) : List Site → Contents → Except Stopped Contents
  | [], contents => .ok contents
  | site :: rest, contents =>
    match visit camelCaseKeys site contents with
    | .ok visited => visitAll camelCaseKeys rest visited
    | .error stopped => .error stopped

/-- To visit one site is one visit. -/
theorem visitAll_singleton (camelCaseKeys : Bool) (site : Site) (contents : Contents) :
    visitAll camelCaseKeys [site] contents = visit camelCaseKeys site contents := by
  rw [visitAll]
  cases visit camelCaseKeys site contents <;> rfl

/-- Sites can be visited in two goes. -/
theorem visitAll_append (camelCaseKeys : Bool) (first second : List Site) (contents : Contents) :
    visitAll camelCaseKeys (first ++ second) contents =
      match visitAll camelCaseKeys first contents with
      | .ok visited => visitAll camelCaseKeys second visited
      | .error stopped => .error stopped := by
  induction first generalizing contents with
  | nil => rfl
  | cons site rest ih =>
    rw [List.cons_append, visitAll, visitAll]
    cases visit camelCaseKeys site contents with
    | ok visited => exact ih visited
    | error stopped => rfl

/-- Visits succeed if the first does and then the others. -/
theorem visitAll_cons_eq_ok_iff {camelCaseKeys : Bool} {site : Site} {rest : List Site}
    {contents done : Contents} :
    visitAll camelCaseKeys (site :: rest) contents = .ok done ↔
      ∃ middle, visit camelCaseKeys site contents = .ok middle ∧
        visitAll camelCaseKeys rest middle = .ok done := by
  rw [visitAll]
  cases visit camelCaseKeys site contents <;> simp

/-- Visits one after the other succeed if those in front do and then those behind. -/
theorem visitAll_append_eq_ok_iff {camelCaseKeys : Bool} {first second : List Site}
    {contents done : Contents} :
    visitAll camelCaseKeys (first ++ second) contents = .ok done ↔
      ∃ middle, visitAll camelCaseKeys first contents = .ok middle ∧
        visitAll camelCaseKeys second middle = .ok done := by
  rw [visitAll_append]
  cases visitAll camelCaseKeys first contents <;> simp

/-- To claim a shell changes no declaration. -/
theorem registry_of_claim {contents claimed : Contents} {parent : Option TypeId}
    {kind : DeclarationKind} {name : Node} {id : TypeId}
    (success : contents.claim parent kind name = .ok (id, claimed)) :
    claimed.registry = contents.registry := by
  unfold claim at success
  split at success
  · simp at success
  · split at success
    · simp at success
    · split at success
      · simp at success
      · split at success
        · simp at success
        · split at success
          · simp at success
          · simp only [Except.ok.injEq, Prod.mk.injEq] at success
            rw [← success.2]

/-- A visit touches nothing but contents, whether or not the path of the site is known. -/
theorem bare_of_visit {camelCaseKeys : Bool} {site : Site} {contents done : Contents}
    (success : visit camelCaseKeys site contents = .ok done) :
    done.registry.bare = contents.registry.bare := by
  unfold visit at success
  simp only at success
  split at success
  · split at success
    · simp at success
    · split at success
      · rename_i claim
        obtain rfl := Except.ok.inj success
        rw [registry_of_claim claim]
      · simp at success
  · unfold fillEnumeration at success
    split at success
    · simp at success
    · split at success
      · simp at success
      · rename_i claim
        split at success
        · simp at success
        · obtain rfl := Except.ok.inj success
          rw [withRegistry, bare_fillValues, registry_of_claim claim]
  · split at success
    · exact Except.ok.inj success ▸ rfl
    · split at success
      · rename_i filled
        obtain ⟨_, _, _, _, _, _, _, rfl⟩ := Change.run_fillProperty_eq_ok_iff.mp filled
        exact Except.ok.inj success ▸ bare_gain _ _ _
      · simp at success
  · split at success
    · exact Except.ok.inj success ▸ rfl
    · exact Except.ok.inj success ▸ bare_setComment _ _
  · exact Except.ok.inj success ▸ rfl

/-- Visits keep the shells. -/
theorem bare_of_visitAll {camelCaseKeys : Bool} {sites : List Site} {contents done : Contents}
    (success : visitAll camelCaseKeys sites contents = .ok done) :
    done.registry.bare = contents.registry.bare := by
  induction sites generalizing contents with
  | nil => exact Except.ok.inj success ▸ rfl
  | cons site rest ih =>
    rw [visitAll] at success
    split at success
    · rename_i first
      exact (ih success).trans (bare_of_visit first)
    · simp at success

/-- What a visit that meets no fault does. -/
inductive Visited (camelCaseKeys : Bool) (site : Site) (contents : Contents) : Contents → Prop
  | record {id : TypeId} (kind : site.node.kind = .record) (named : site.node.HasLocalName)
      (found : contents.registry.find? site.name = some id)
      (shell : contents.registry.HasRecord id) (fresh : id ∉ contents.filled) :
      Visited camelCaseKeys site contents { contents with filled := contents.filled ++ [id] }
  | enumeration {id : TypeId} {type : EnumType} (kind : site.node.kind = .enumeration)
      (named : site.node.HasLocalName) (found : contents.registry.find? site.name = some id)
      (shell : contents.registry.declarations[id]? = some (.enumeration type))
      (fresh : id ∉ contents.filled) :
      Visited camelCaseKeys site contents
        ⟨contents.registry.fillValues id site.node.members, contents.filled ++ [id]⟩
  | property {owner : TypeId} {name : Node} {nodes : List Node} {property : Property}
      {identity : Bool} (kind : site.node.kind = .property)
      (scope : contents.registry.scopeOf site.path = some owner)
      (children : site.node.children = name :: nodes)
      (read : contents.registry.readProperty camelCaseKeys owner name.text nodes =
        .ok (property, identity)) :
      Visited camelCaseKeys site contents
        (contents.withRegistry
          (contents.registry.onRecord owner (RecordType.gain property identity)))
  | comment {owner : TypeId} (kind : site.node.kind = .comment)
      (scope : contents.registry.scopeOf site.path = some owner) :
      Visited camelCaseKeys site contents
        (contents.withRegistry
          (contents.registry.onRecord owner (.setComment site.node.commentText)))
  | silent (silent : site.node.declares = false)
      (outside : site.node.kind = .property ∨ site.node.kind = .comment →
        contents.registry.scopeOf site.path = none) :
      Visited camelCaseKeys site contents contents

/-- A visit of a record claims its shell. -/
private theorem visit_record {camelCaseKeys : Bool} {site : Site} {contents done : Contents}
    (knows : contents.registry.Knows site.path) (kind : site.node.kind = .record) :
    visit camelCaseKeys site contents = .ok done ↔ Visited camelCaseKeys site contents done := by
  constructor
  · intro success
    simp only [visit, kind] at success
    split at success
    · simp at success
    · rename_i name members children
      split at success
      · rename_i id claimed claim
        obtain ⟨fit, found, ⟨declaration, atId, isRecord⟩, fresh, rfl⟩ :=
          (claim_eq_ok_iff knows).mp claim
        obtain rfl := Except.ok.inj success
        refine .record kind ⟨name, members, children, fit⟩ ?_
          (hasRecord_iff_kind.mpr ⟨declaration, atId, isRecord⟩) fresh
        simpa [Site.name, Node.localName, firstChildText?, children] using found
      · simp at success
  · intro visited
    cases visited with
    | record _ named found shell fresh =>
      obtain ⟨name, members, children, fit⟩ := named
      simp only [Site.name, Node.localName, firstChildText?, children, List.head?_cons,
        Option.map_some, Option.getD_some] at found
      have claim := (claim_eq_ok_iff knows).mpr
        ⟨fit, found, hasRecord_iff_kind.mp shell, fresh, rfl⟩
      simp only [visit, kind, children, claim]
    | silent silent => simp [Node.declares, kind] at silent
    | _ => simp_all

/-- A visit of an enumeration claims its shell and fills it in. -/
private theorem visit_enumeration {camelCaseKeys : Bool} {site : Site} {contents done : Contents}
    (knows : contents.registry.Knows site.path) (kind : site.node.kind = .enumeration) :
    visit camelCaseKeys site contents = .ok done ↔ Visited camelCaseKeys site contents done := by
  constructor
  · intro success
    simp only [visit, kind, fillEnumeration] at success
    split at success
    · simp at success
    · rename_i name members children
      split at success
      · simp at success
      · rename_i id claimed claim
        obtain ⟨fit, found, ⟨declaration, atId, isEnumeration⟩, fresh, rfl⟩ :=
          (claim_eq_ok_iff knows).mp claim
        split at success
        · simp at success
        · rename_i type shell
          obtain rfl := Except.ok.inj success
          have behind : site.node.members = members := by simp [Node.members, children]
          subst behind
          refine .enumeration kind ⟨name, _, children, fit⟩ ?_
            (enumeration?_eq_some_iff.mp shell) fresh
          simpa [Site.name, Node.localName, firstChildText?, children] using found
  · intro visited
    cases visited with
    | enumeration _ named found shell fresh =>
      obtain ⟨name, members, children, fit⟩ := named
      simp only [Site.name, Node.localName, firstChildText?, children, List.head?_cons,
        Option.map_some, Option.getD_some] at found
      have claim : contents.claim (contents.registry.scopeOf site.path) .enumeration name = _ :=
        (claim_eq_ok_iff knows).mpr ⟨fit, found, ⟨_, shell, rfl⟩, fresh, rfl⟩
      have filled := enumeration?_eq_some_iff.mpr shell
      simp only [visit, kind, fillEnumeration, children, claim, filled, Node.members]
      rfl
    | silent silent => simp [Node.declares, kind] at silent
    | _ => simp_all

/-- A visit of a property or a comment changes the record that the path leads to, if any. -/
private theorem visit_inside {camelCaseKeys : Bool} {site : Site} {contents done : Contents}
    (knows : contents.registry.Knows site.path)
    (kind : site.node.kind = .property ∨ site.node.kind = .comment) :
    visit camelCaseKeys site contents = .ok done ↔ Visited camelCaseKeys site contents done := by
  have silent : site.node.declares = false := by
    rcases kind with kind | kind <;> simp [Node.declares, kind]
  constructor
  · intro success
    cases scope : contents.registry.scopeOf site.path with
    | none =>
      have same : contents = done := by
        rcases kind with kind | kind <;> simpa [visit, kind, scope] using success
      exact same ▸ .silent silent fun _ => scope
    | some owner =>
      rcases kind with kind | kind
      · simp only [visit, kind, scope] at success
        split at success
        · rename_i registry filled
          obtain ⟨name, nodes, property, identity, children, read, _, rfl⟩ :=
            Change.run_fillProperty_eq_ok_iff.mp filled
          exact Except.ok.inj success ▸ .property kind scope children read
        · simp at success
      · simp only [visit, kind, scope] at success
        exact Except.ok.inj success ▸ .comment kind scope
  · intro visited
    cases visited with
    | property kind scope children read =>
      have filled := Change.run_fillProperty_of_record children read (knows.hasRecord scope)
      simp only [visit, kind, scope, filled]
    | comment kind scope => simp only [visit, kind, scope]
    | silent _ outside =>
      have scope := outside kind
      rcases kind with kind | kind <;> simp [visit, kind, scope]
    | record isRecord => simp [Node.declares, isRecord] at silent
    | enumeration isEnumeration => simp [Node.declares, isEnumeration] at silent

/-- A visit succeeds exactly if it does what a visit may do. -/
theorem visit_eq_ok_iff {camelCaseKeys : Bool} {site : Site} {contents done : Contents}
    (knows : contents.registry.Knows site.path) :
    visit camelCaseKeys site contents = .ok done ↔ Visited camelCaseKeys site contents done := by
  by_cases record : site.node.kind = .record
  · exact visit_record knows record
  · by_cases enumeration : site.node.kind = .enumeration
    · exact visit_enumeration knows enumeration
    · by_cases inside : site.node.kind = .property ∨ site.node.kind = .comment
      · exact visit_inside knows inside
      · have idle : visit camelCaseKeys site contents = .ok contents := by
          cases kind : site.node.kind <;> simp_all [visit]
        rw [idle, Except.ok.injEq]
        constructor
        · rintro rfl
          exact .silent (by simp [Node.declares, record, enumeration])
            fun known => absurd known inside
        · intro visited
          cases visited <;> simp_all

/-- To fill in a record is to visit its site and then the sites of its members, provided that
its members are filled in by visiting their sites. -/
private theorem fillRecord_eq_visitAll {camelCaseKeys : Bool} {path : List String} {node : Node}
    {contents : Contents} (knows : contents.registry.Knows path) (kind : node.kind = .record)
    (inner : ∀ (claimed : Contents) (owner : TypeId),
      claimed.registry.scopeOf (node.localName :: path) = some owner →
      claimed.registry.HasRecord owner →
      fillMembers camelCaseKeys owner node.members claimed =
        visitAll camelCaseKeys (Site.inside (node.localName :: path) node.members) claimed) :
    fillRecord camelCaseKeys (contents.registry.scopeOf path) node contents =
      visitAll camelCaseKeys
        (⟨path, node⟩ :: Site.inside (node.localName :: path) node.members) contents := by
  obtain ⟨_, text, children, position⟩ := node
  obtain rfl := kind
  cases children with
  | nil =>
    rw [fillRecord, visitAll, visit]
  | cons name members =>
    rw [fillRecord, visitAll]
    simp only [visit]
    cases claim : contents.claim (contents.registry.scopeOf path) .record name with
    | error error => rfl
    | ok result =>
      obtain ⟨id, claimed⟩ := result
      obtain ⟨_, found, shell, _, rfl⟩ := (claim_eq_ok_iff knows).mp claim
      exact inner _ id found (hasRecord_iff_kind.mpr shell)

/-- To fill in a single member is to do what members of its kind do. -/
theorem fillMembers_singleton {camelCaseKeys : Bool} {owner : TypeId} {contents : Contents}
    (member : Node) :
    fillMembers camelCaseKeys owner [member] contents =
      match member.kind with
      | .record => fillRecord camelCaseKeys (some owner) member contents
      | .enumeration => fillEnumeration (some owner) member contents
      | .property =>
        match (Change.fillProperty camelCaseKeys owner member).run contents.registry with
        | .ok _ grown => .ok (contents.withRegistry grown)
        | .error error reached => .error ⟨error, contents.withRegistry reached⟩
      | .comment =>
        .ok (contents.withRegistry
          (contents.registry.onRecord owner (.setComment member.commentText)))
      | _ => .ok contents := by
  rw [fillMembers]
  cases member.kind with
  | record =>
    simp only [fillMembers]
    cases fillRecord camelCaseKeys (some owner) member contents <;> rfl
  | enumeration =>
    simp only [fillMembers]
    cases fillEnumeration (some owner) member contents <;> rfl
  | _ => rfl

/-- Members are filled in one after the other. -/
theorem fillMembers_cons {camelCaseKeys : Bool} {owner : TypeId} {contents : Contents}
    (member : Node) (rest : List Node) :
    fillMembers camelCaseKeys owner (member :: rest) contents =
      (fillMembers camelCaseKeys owner [member] contents).bind
        (fillMembers camelCaseKeys owner rest) := by
  rw [fillMembers_singleton, fillMembers]
  cases member.kind with
  | record =>
    simp only
    cases fillRecord camelCaseKeys (some owner) member contents <;> rfl
  | enumeration =>
    simp only
    cases fillEnumeration (some owner) member contents <;> rfl
  | property =>
    simp only
    cases (Change.fillProperty camelCaseKeys owner member).run contents.registry <;> rfl
  | _ => rfl

/-- To fill in the members of a record is to visit their sites. -/
theorem fillMembers_eq_visitAll {camelCaseKeys : Bool} {path : List String} {owner : TypeId}
    {nodes : List Node} {contents : Contents}
    (scope : contents.registry.scopeOf path = some owner)
    (record : contents.registry.HasRecord owner) :
    fillMembers camelCaseKeys owner nodes contents =
      visitAll camelCaseKeys (Site.inside path nodes) contents := by
  induction nodes using forest_induction generalizing path owner contents with
  | nil => rfl
  | cons node rest _ members ih =>
    have knows := knows_of_scopeOf scope record
    have first : fillMembers camelCaseKeys owner [node] contents =
        visitAll camelCaseKeys (⟨path, node⟩ ::
          if node.kind = .record then Site.inside (node.localName :: path) node.members else [])
          contents := by
      rw [fillMembers_singleton]
      by_cases kind : node.kind = .record
      · rw [if_pos kind, ← fillRecord_eq_visitAll knows kind fun claimed id => members]
        simp only [kind, scope]
      · rw [if_neg kind, visitAll_singleton, visit]
        cases other : node.kind with
        | record => exact absurd other kind
        | _ => simp only [scope]
    rw [Site.inside_cons, ← List.cons_append, visitAll_append, fillMembers_cons, first]
    cases result : visitAll camelCaseKeys (⟨path, node⟩ ::
        if node.kind = .record then Site.inside (node.localName :: path) node.members else [])
        contents with
    | error stopped => rfl
    | ok filled =>
      have same := bare_of_visitAll result
      exact ih (by rw [scopeOf_of_bare same, scope]) (record.of_bare same)

/-- To fill in a node of the top level is to visit its site and those inside it. -/
theorem fillTop_eq_visitAll (camelCaseKeys : Bool) (node : Node) (contents : Contents) :
    fillTop camelCaseKeys node contents =
      visitAll camelCaseKeys (Site.inside [] [node]) contents := by
  rw [Site.inside_cons, Site.inside_nil, List.append_nil, fillTop]
  by_cases kind : node.kind = .record
  · rw [if_pos kind]
    have filled : fillRecord camelCaseKeys (contents.registry.scopeOf []) node contents =
        visitAll camelCaseKeys (⟨[], node⟩ :: Site.inside [node.localName] node.members) contents :=
      fillRecord_eq_visitAll (knows_nil _) kind fun claimed id => fillMembers_eq_visitAll
    simp only [kind]
    exact filled
  · rw [if_neg kind, visitAll_singleton, visit]
    cases other : node.kind with
    | record => exact absurd other kind
    | _ => rfl

/-- The second pass is the visit of all sites of the schema in document order. -/
theorem fillAll_eq_visitAll (camelCaseKeys : Bool) (schema : Schema) (contents : Contents) :
    (fillAll camelCaseKeys schema contents).mapError Halt.stopped =
      visitAll camelCaseKeys (Site.inside [] schema) contents := by
  induction schema generalizing contents with
  | nil => rfl
  | cons node rest ih =>
    have split : Site.inside [] (node :: rest) = Site.inside [] [node] ++ Site.inside [] rest :=
      Site.inside_append [] [node] rest
    rw [split, visitAll_append, ← fillTop_eq_visitAll, fillAll]
    cases fillTop camelCaseKeys node contents with
    | error stopped => rfl
    | ok filled => exact ih filled

/-- The second pass as a whole keeps all shells. -/
theorem bare_of_fillAll {camelCaseKeys : Bool} {schema : Schema} {contents done : Contents}
    (success : fillAll camelCaseKeys schema contents = .ok done) :
    done.registry.bare = contents.registry.bare := by
  have flat := fillAll_eq_visitAll camelCaseKeys schema contents
  rw [success] at flat
  exact bare_of_visitAll flat.symm

end Contents

end SchemaGraph
