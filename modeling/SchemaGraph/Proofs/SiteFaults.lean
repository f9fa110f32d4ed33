import SchemaGraph.Proofs.Progress
import SchemaGraph.Proofs.PropertyFaults
import SchemaGraph.Proofs.RegisteredSites

/-!
# The faults of sites

Every site has a verdict of its own, which depends on the names that the first pass has registered
and on the names of the declarations in front of it, but not on what the second pass has done. When
the second pass gets to a site its visit is stopped exactly if the site is at fault, and by this
fault.
-/

namespace SchemaGraph

open Node Registry TypeExpression

/-- The fault in the name of a declaration. -/
inductive Node.NameFault (node : Node) : CompileError → Prop
  | unnamed (nameless : node.children = []) :
      NameFault node (.atNode node (.declarationWithoutName node.kind))
  | noToken {name : Node} {members : List Node} (children : node.children = name :: members)
      (other : name.kind ≠ .token) :
      NameFault node (.atNode name (.declarationNameExpected name.kind))
  | unfit {name : Node} {members : List Node} (children : node.children = name :: members)
      (isToken : name.kind = .token) (unfit : ¬ name.IsLocalName) :
      NameFault node (.atNode name (.invalidDeclarationName name.text))

/-- The name of the site is that of a builtin type or of a declaration in front. -/
def Site.Taken (settings : Settings) (earlier : List Site) (site : Site) : Prop :=
  site.name ∈ settings.builtinNames ∨
    ∃ other ∈ earlier, other.node.declares = true ∧ other.name = site.name

/-- The fault of a site, given the names that are registered and the sites in front. -/
inductive Site.Fault (settings : Settings) (names : List String) (earlier : List Site)
    (site : Site) : CompileError → Prop
  | name {error : CompileError} (declares : site.node.declares = true)
      (fault : site.node.NameFault error) : Fault settings names earlier site error
  | taken (declares : site.node.declares = true) (named : site.node.HasLocalName)
      (taken : site.Taken settings earlier) :
      Fault settings names earlier site (.duplicateType site.name)
  /-- A property of a record does not fit in. -/
  | property {error : CompileError} (kind : site.node.kind = .property) (inRecord : site.path ≠ [])
      (fault : site.node.PropertyFault names site.path error) :
      Fault settings names earlier site error

/-- A name is refused because it is no token or no local name, and for nothing else. -/
theorem declarationName_eq_error_iff {name : Node} {error : CompileError} :
    declarationName name = .error error ↔
      name.kind ≠ .token ∧ error = .atNode name (.declarationNameExpected name.kind) ∨
        name.kind = .token ∧ ¬ name.IsLocalName ∧
          error = .atNode name (.invalidDeclarationName name.text) := by
  rw [declarationName, ← isLocalName_iff]
  by_cases isToken : name.kind = .token
  · cases fit : isLocalName name.text with
    | true => simp [isToken]
    | false => simpa [isToken, fit] using eq_comm
  · simpa [isToken] using eq_comm

/-- A node has a fault in its name exactly if the name is missing or is refused. -/
theorem Node.nameFault_iff {node : Node} {error : CompileError} :
    node.NameFault error ↔
      node.children = [] ∧ error = .atNode node (.declarationWithoutName node.kind) ∨
        ∃ name members, node.children = name :: members ∧ declarationName name = .error error := by
  simp only [declarationName_eq_error_iff]
  constructor
  · intro fault
    cases fault with
    | unnamed nameless => exact .inl ⟨nameless, rfl⟩
    | noToken children other => exact .inr ⟨_, _, children, .inl ⟨other, rfl⟩⟩
    | unfit children isToken unfit => exact .inr ⟨_, _, children, .inr ⟨isToken, unfit, rfl⟩⟩
  · intro fault
    obtain ⟨nameless, rfl⟩ | ⟨_, _, children, ⟨other, rfl⟩ | ⟨isToken, unfit, rfl⟩⟩ := fault
    · exact .unnamed nameless
    · exact .noToken children other
    · exact .unfit children isToken unfit

/-- A fit name is not at fault. -/
theorem Node.HasLocalName.not_nameFault {node : Node} (named : node.HasLocalName)
    {error : CompileError} : ¬ node.NameFault error := by
  intro fault
  obtain ⟨name, members, children, fit⟩ := named
  obtain ⟨nameless, _⟩ | ⟨other, _, children', unread⟩ := nameFault_iff.mp fault
  · simp [children] at nameless
  · obtain ⟨rfl, _⟩ := List.cons.inj (children.symm.trans children')
    exact (declarationName_eq_error unread).1 fit

/-- What can be registered together with all that stands in front of it is registered. -/
theorem shellsOf_holds {settings : Settings} {schema : Schema} (placed : WellPlaced schema)
    {before after : List Site} {site : Site}
    (split : Site.declarations [] schema = before ++ site :: after)
    (registrable : Shells.Registrable ⟨settings.builtins⟩ (before ++ [site])) :
    Shells.Holds (shellsOf settings schema) site := by
  obtain ⟨done, walk⟩ := Shells.walk_attempts schema (hasScope_none ⟨settings.builtins⟩)
  have same : shellsOf settings schema = done := by
    rw [shellsOf, Shells.ofSchema, walk.declareAll_eq]
  have top : Registry.Stands ⟨settings.builtins⟩ [] none := rfl
  exact same ▸ walk.holds placed top split registrable

/-- Declarations that find different shells can be registered behind the builtin types. -/
theorem registrable_of_fits {settings : Settings} {shells : Registry}
    (sound : Shells.Sound settings shells) {camelCaseKeys : Bool} {sites : List Site}
    (fits : ∀ site ∈ sites, site.Fits shells camelCaseKeys) (met : (Site.ids shells sites).Nodup) :
    Shells.Registrable ⟨settings.builtins⟩ (sites.filter fun site => site.node.declares) := by
  refine ⟨fun site listed => ?_, Site.nodup_name_of_ids fits met, fun site listed => ?_⟩
  · obtain ⟨inSites, declares⟩ := List.mem_filter.mp listed
    exact (fits site inSites).named declares
  · obtain ⟨inSites, declares⟩ := List.mem_filter.mp listed
    rw [Registry.names, Settings.map_name_builtins]
    exact (fits site inSites).notMem_builtinNames sound declares

/-- In a well-placed schema the second pass gets to a site with these contents. -/
structure GetsTo (settings : Settings) (schema : Schema) (front : List Site) (site : Site)
    (contents : Contents) : Prop where
  placed : WellPlaced schema
  builtins : settings.builtinNames.Nodup
  split : ∃ behind, Site.inside [] schema = front ++ site :: behind
  visited : Contents.visitAll settings.camelCaseKeys front ⟨shellsOf settings schema, []⟩ =
    .ok contents

namespace GetsTo

variable {settings : Settings} {schema : Schema} {front : List Site} {site : Site}
  {contents : Contents}

/-- The shells that the second pass has got by are sound. -/
theorem sound (gets : GetsTo settings schema front site contents) :
    Shells.Sound settings (shellsOf settings schema) :=
  Shells.sound_ofSchema (withBuiltins_eq_ok_iff.mpr ⟨gets.builtins, rfl⟩) schema

/-- Whenever the second pass gets to a site, the shells are those of the first pass. -/
theorem bare (gets : GetsTo settings schema front site contents) :
    contents.registry.bare = (shellsOf settings schema).bare :=
  Contents.bare_of_visitAll gets.visited

/-- The records around the site are known. -/
theorem knows (gets : GetsTo settings schema front site contents) :
    contents.registry.Knows site.path := by
  obtain ⟨behind, split⟩ := gets.split
  exact (Contents.knows_of_split split (knows_nil _) gets.visited).of_bare gets.bare

/-- The sites in front are without fault, and their shells are all that has been met. -/
theorem front_fits (gets : GetsTo settings schema front site contents) :
    (∀ other ∈ front, other.Fits (shellsOf settings schema) settings.camelCaseKeys) ∧
      (Site.ids (shellsOf settings schema) front).Nodup ∧
      contents.filled = Site.ids (shellsOf settings schema) front := by
  obtain ⟨behind, split⟩ := gets.split
  have known := Contents.knows_of_front split (knows_nil _) gets.visited
  obtain ⟨fits, met⟩ :=
    (Contents.exists_visitAll_iff known rfl List.nodup_nil).mp ⟨contents, gets.visited⟩
  exact ⟨fits, met, (Contents.met_of_visitAll known rfl gets.visited).1⟩

/-- All declarations that it has got by can be registered. -/
theorem registrable (gets : GetsTo settings schema front site contents) :
    Shells.Registrable ⟨settings.builtins⟩ (front.filter fun site => site.node.declares) :=
  registrable_of_fits gets.sound gets.front_fits.1 gets.front_fits.2.1

/-- The declarations in front are registered inside the records of their paths. -/
theorem holds_of_mem (gets : GetsTo settings schema front site contents) {other : Site}
    (listed : other ∈ front) (declares : other.node.declares = true) :
    Shells.Holds (shellsOf settings schema) other := by
  obtain ⟨behind, split⟩ := gets.split
  have registrable := gets.registrable
  obtain ⟨earlier, later, rfl⟩ := List.append_of_mem listed
  rw [List.filter_append, List.filter_cons, if_pos declares, List.append_cons] at registrable
  rw [List.append_assoc, List.cons_append] at split
  exact shellsOf_holds gets.placed (Site.declarations_of_split split declares) registrable.front

/-- The site stands inside the records of its path. -/
theorem stands (gets : GetsTo settings schema front site contents) :
    contents.registry.Stands site.path (contents.registry.scopeOf site.path) := by
  have keeps := Keeps.of_bare gets.bare
  obtain ⟨behind, split⟩ := gets.split
  rw [scopeOf_of_bare gets.bare]
  cases Site.exists_enclosing_before split with
  | inl top =>
    rw [top]
    rfl
  | inr inner =>
    obtain ⟨outer, listed, kind, around⟩ := inner
    obtain ⟨id, declaration, found, named, _, stands⟩ :=
      gets.holds_of_mem listed (declares_of_record kind)
    have scope : (shellsOf settings schema).scopeOf outer.innerPath = some id :=
      (congrArg _ named).symm.trans (find?_of_getElem? gets.sound.distinct found)
    rw [around, scope]
    exact Stands.of_keeps keeps ⟨id, declaration, rfl, found, named, stands⟩

/-- A name that is not taken leads to a shell of the kind that has not been met. -/
theorem exists_shell_of_fresh (gets : GetsTo settings schema front site contents)
    (declares : site.node.declares = true) (named : site.node.HasLocalName)
    (fresh : ¬ site.Taken settings front) :
    ∃ id declaration, contents.registry.find? site.name = some id ∧
      contents.registry.declarations[id]? = some declaration ∧
      declaration.kind = site.node.declaredKind ∧ id ∉ contents.filled := by
  rw [Site.Taken, not_or] at fresh
  obtain ⟨behind, split⟩ := gets.split
  have notBuiltin : site.name ∉ Registry.names ⟨settings.builtins⟩ := by
    rw [Registry.names, Settings.map_name_builtins]
    exact fresh.1
  have registrable := gets.registrable.concat named notBuiltin fun other listed same => by
    obtain ⟨inFront, declares⟩ := List.mem_filter.mp listed
    exact fresh.2 ⟨other, inFront, declares, same⟩
  obtain ⟨id, declaration, found, isName, kind, _⟩ :=
    shellsOf_holds gets.placed (Site.declarations_of_split split declares) registrable
  have atName := isName ▸ find?_of_getElem? gets.sound.distinct found
  obtain ⟨kept, keptFound, _, sameKind, _⟩ := (Keeps.of_bare gets.bare).names id declaration found
  refine ⟨id, kept, ?_, keptFound, sameKind.trans kind, fun met => ?_⟩
  · rw [find?_of_bare gets.bare, atName]
  · rw [gets.front_fits.2.2] at met
    obtain ⟨other, listed, atOther⟩ := List.mem_filterMap.mp met
    obtain ⟨inFront, declares⟩ := List.mem_filter.mp listed
    obtain ⟨same, atId, isOther⟩ := name_of_find? atOther
    obtain rfl := Option.some.inj (found.symm.trans atId)
    exact fresh.2 ⟨other, inFront, declares, isOther.symm.trans isName⟩

/-- A name that is taken leads to a shell of another kind or to one that has been met. -/
theorem exists_shell_of_taken (gets : GetsTo settings schema front site contents)
    (taken : site.Taken settings front) :
    ∃ id declaration, contents.registry.find? site.name = some id ∧
      contents.registry.declarations[id]? = some declaration ∧
      (declaration.kind ≠ site.node.declaredKind ∨ id ∈ contents.filled) := by
  rw [find?_of_bare gets.bare]
  cases taken with
  | inl builtin =>
    obtain ⟨id, declaration, found, atId, notUser⟩ := gets.sound.find?_builtin builtin
    obtain ⟨kept, keptFound, bare⟩ := exists_getElem?_of_bare gets.bare atId
    refine ⟨id, kept, found, keptFound, .inl fun kind => ?_⟩
    have user := isUser_of_declaredKind kind
    rw [← Declaration.isUser_bare, bare, Declaration.isUser_bare, notUser] at user
    simp at user
  | inr earlier =>
    obtain ⟨other, listed, declares, same⟩ := earlier
    obtain ⟨fits, _, met⟩ := gets.front_fits
    obtain ⟨id, declaration, found, atId, _⟩ := (fits other listed).shell declares
    obtain ⟨kept, keptFound, _⟩ := exists_getElem?_of_bare gets.bare atId
    refine ⟨id, kept, same ▸ found, keptFound, .inr ?_⟩
    rw [met]
    exact List.mem_filterMap.mpr ⟨other, List.mem_filter.mpr ⟨listed, declares⟩, found⟩

/-- A path that is not empty leads to a record. -/
theorem exists_scope (gets : GetsTo settings schema front site contents)
    (inRecord : site.path ≠ []) : ∃ owner, contents.registry.scopeOf site.path = some owner := by
  cases path : site.path with
  | nil => exact absurd path inRecord
  | cons record outer =>
    obtain ⟨id, found, _⟩ := gets.knows _ (congrArg Name.ofPath? path)
    exact ⟨id, found⟩

/-- A property is refused for its fault. -/
theorem unfilled_iff_fault (gets : GetsTo settings schema front site contents)
    {owner : TypeId} (scope : contents.registry.scopeOf site.path = some owner)
    {error : CompileError} :
    (Change.fillProperty settings.camelCaseKeys owner site.node).run contents.registry =
        .error error contents.registry ↔
      site.node.PropertyFault (shellsOf settings schema).names site.path error := by
  have names : contents.registry.names = (shellsOf settings schema).names := by
    rw [← names_bare, gets.bare, names_bare]
  rw [← names]
  exact fillProperty_eq_error_iff_fault (gets.sound.precede.of_bare gets.bare)
    (scope ▸ gets.stands) (gets.knows.hasRecord scope)

/-- A visit that fails meets the fault of the site. -/
theorem fault_of_fails (gets : GetsTo settings schema front site contents) {error : CompileError}
    (fails : Contents.Fails settings.camelCaseKeys site contents error) :
    site.Fault settings (shellsOf settings schema).names front error := by
  cases fails with
  | unnamed declares nameless => exact .name declares (.unnamed nameless)
  | misnamed declares children unread =>
    exact .name declares (nameFault_iff.mpr (.inr ⟨_, _, children, unread⟩))
  | missing declares named missing =>
    by_cases taken : site.Taken settings front
    · obtain ⟨_, _, found, _⟩ := gets.exists_shell_of_taken taken
      simp [missing] at found
    · obtain ⟨_, _, found, _⟩ := gets.exists_shell_of_fresh declares named taken
      simp [missing] at found
  | taken declares named found atId refused =>
    by_cases taken : site.Taken settings front
    · exact .taken declares named taken
    · obtain ⟨_, _, found', atId', kind, unmet⟩ := gets.exists_shell_of_fresh declares named taken
      obtain rfl := Option.some.inj (found.symm.trans found')
      obtain rfl := Option.some.inj (atId.symm.trans atId')
      exact (refused.elim (· kind) unmet).elim
  | property kind scope unfilled =>
    refine .property kind (fun top => ?_) ((gets.unfilled_iff_fault scope).mp unfilled)
    simp [top, scopeOf, Name.ofPath?] at scope

/-- A visit of a site that is at fault fails. -/
theorem fails_of_fault (gets : GetsTo settings schema front site contents) {error : CompileError}
    (fault : site.Fault settings (shellsOf settings schema).names front error) :
    Contents.Fails settings.camelCaseKeys site contents error := by
  cases fault with
  | name declares fault =>
    obtain ⟨nameless, rfl⟩ | ⟨_, _, children, unread⟩ := nameFault_iff.mp fault
    · exact .unnamed declares nameless
    · exact .misnamed declares children unread
  | taken declares named taken =>
    obtain ⟨_, _, found, atId, refused⟩ := gets.exists_shell_of_taken taken
    exact .taken declares named found atId refused
  | property kind inRecord fault =>
    obtain ⟨owner, scope⟩ := gets.exists_scope inRecord
    exact .property kind scope ((gets.unfilled_iff_fault scope).mpr fault)

/-- A visit of the site is stopped exactly by its fault, and leaves the contents as they are. -/
theorem visit_eq_error_iff_fault (gets : GetsTo settings schema front site contents)
    {error : CompileError} {left : Contents} :
    Contents.visit settings.camelCaseKeys site contents = .error ⟨error, left⟩ ↔
      site.Fault settings (shellsOf settings schema).names front error ∧ left = contents := by
  rw [Contents.visit_eq_error_iff gets.knows]
  exact and_congr_left' ⟨gets.fault_of_fails, gets.fails_of_fault⟩

end GetsTo

end SchemaGraph
