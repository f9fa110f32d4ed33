import SchemaGraph.Proofs.Coherence
import SchemaGraph.Proofs.Progress
import SchemaGraph.Proofs.RegisteredDeclarations

/-!
# The second pass decorates the shells

Whatever the shape of the trees, and whether it ends or is stopped, the second pass leaves the graph
of shells as it is: what is registered, under which names and where, and what names denote. It meets
a shell once at most, and only shells of the sites. What it has not met is as empty as before.
-/

namespace SchemaGraph

open Node Registry

namespace Declaration

/-- Nothing fills the declaration in. -/
def Empty : Declaration → Prop
  | record type => type.comment = none ∧ type.properties = [] ∧ type.identity = none
  | enumeration type => type.comment = none ∧ type.values = []
  | _ => True

/-- A declaration is empty exactly if dropping its contents changes nothing. -/
theorem empty_iff {declaration : Declaration} :
    declaration.Empty ↔ declaration.bare = declaration := by
  cases declaration with
  | record type =>
    cases type
    simp [Empty, bare, eq_comm]
  | enumeration type =>
    cases type
    simp [Empty, bare, eq_comm]
  | _ => simp [Empty, bare]

/-- The links of a declaration are no part of its contents. -/
@[simp] theorem links_bare (declaration : Declaration) :
    declaration.bare.links = declaration.links := by
  cases declaration <;> rfl

end Declaration

/-- Registries of the same shells have the same parents and children. -/
theorem Registry.map_links_of_bare {registry registry' : Registry}
    (same : registry'.bare = registry.bare) :
    registry'.declarations.map Declaration.links = registry.declarations.map Declaration.links := by
  have links (registry : Registry) :
      registry.bare.declarations.map Declaration.links =
        registry.declarations.map Declaration.links := by
    simp [Registry.bare, Function.comp_def]
  rw [← links registry', same, links]

/-- The site has a fit name, and its qualified name is that of the shell. -/
def Site.IsAt (shells : Registry) (site : Site) (id : TypeId) : Prop :=
  site.node.HasLocalName ∧ shells.lookup site.name = .ok id

/-- The contents decorate the shells: nothing else is changed. -/
structure Decorates (shells : Registry) (schema : Schema) (contents : Contents) : Prop where
  /-- Ids, names, kinds, parents and children are those of the shells. -/
  links : contents.registry.declarations.map Declaration.links =
    shells.declarations.map Declaration.links
  lookup : contents.registry.lookup = shells.lookup
  resolve : contents.registry.resolve = shells.resolve
  /-- The shells that are met are those of the first declarations, in document order. -/
  met : ∃ front behind, Site.declarations [] schema = front ++ behind ∧
    List.Forall₂ (Site.IsAt shells) front contents.filled
  /-- No shell is met twice. -/
  once : contents.filled.Nodup
  /-- A shell that is not met stays as it is, without contents. -/
  untouched : ∀ id declaration, contents.registry.get id = .ok declaration →
    id ∉ contents.filled → shells.get id = .ok declaration ∧ declaration.Empty

/-- Fitting declarations find their shells one by one. -/
theorem Site.forall₂_ids {shells : Registry} {camelCaseKeys : Bool} {sites : List Site}
    (fits : ∀ site ∈ sites, site.Fits shells camelCaseKeys) :
    List.Forall₂ (Site.IsAt shells) (sites.filter fun site => site.node.declares)
      (Site.ids shells sites) := by
  induction sites with
  | nil => exact .nil
  | cons site rest ih =>
    rw [List.forall_mem_cons] at fits
    rw [← List.singleton_append, Site.ids_append, List.singleton_append]
    cases declares : site.node.declares with
    | false =>
      rw [List.filter_cons, if_neg (by simp [declares]), Site.ids_singleton_silent declares]
      exact ih fits.2
    | true =>
      obtain ⟨id, _, found, _⟩ := fits.1.shell declares
      rw [List.filter_cons, if_pos declares, Site.ids_singleton declares found]
      exact .cons ⟨fits.1.named declares, by rw [lookup, found]⟩ (ih fits.2)

namespace Contents

section Visits

variable {camelCaseKeys : Bool} {site : Site} {contents done : Contents}

/-- A visit changes the declaration of the site and that of the record around it at most. -/
theorem Visited.getElem?_eq (visited : Visited camelCaseKeys site contents done) {id : TypeId}
    (notHere : id ∉ Site.ids contents.registry [site])
    (notAround : contents.registry.scopeOf site.path ≠ some id) :
    done.registry.declarations[id]? = contents.registry.declarations[id]? := by
  cases visited with
  | record | silent => rfl
  | enumeration kind _ found =>
    rw [Site.ids_singleton (declares_of_enumeration kind) found, List.mem_singleton] at notHere
    simp [getElem?_fillValues, Ne.symm notHere]
  | property _ scope | comment _ scope =>
    have apart : _ ≠ id := fun same => notAround (same ▸ scope)
    simp [withRegistry, getElem?_onRecord, apart]

/-- The record around a site is met before the site is visited. -/
theorem scope_mem_filled {shells : Registry} {schema : Schema} {front behind : List Site}
    (split : Site.inside [] schema = front ++ site :: behind)
    (success : visitAll camelCaseKeys front ⟨shells, []⟩ = .ok contents)
    {owner : TypeId} (scope : shells.scopeOf site.path = some owner) : owner ∈ contents.filled := by
  have known := knows_of_front split (knows_nil _) success
  obtain ⟨met, _⟩ := met_of_visitAll known rfl success
  rw [met, List.nil_append]
  cases Site.exists_enclosing_before split with
  | inl top => simp [top, scopeOf, Name.ofPath?] at scope
  | inr inner =>
    obtain ⟨outer, listed, kind, around⟩ := inner
    have found : shells.find? outer.name = some owner := by rwa [around] at scope
    refine List.mem_filterMap.mpr ⟨outer, List.mem_filter.mpr ⟨listed, ?_⟩, found⟩
    exact declares_of_record kind

/-- What is not met is not touched. -/
theorem getElem?_of_notMem_filled {shells : Registry} {schema : Schema} {front behind : List Site}
    (split : Site.inside [] schema = front ++ behind)
    (success : visitAll camelCaseKeys front ⟨shells, []⟩ = .ok done) {id : TypeId}
    (unmet : id ∉ done.filled) :
    done.registry.declarations[id]? = shells.declarations[id]? := by
  induction front using List.reverseRecOn generalizing behind done with
  | nil =>
    obtain rfl := Except.ok.inj success
    rfl
  | append_singleton front site ih =>
    obtain ⟨middle, first, last⟩ := visitAll_append_eq_ok_iff.mp success
    rw [visitAll_singleton] at last
    rw [List.append_assoc, List.singleton_append] at split
    have same := bare_of_visitAll first
    have knows := (knows_of_split split (knows_nil _) first).of_bare same
    have visited := (visit_eq_ok_iff knows).mp last
    rw [visited.met.1, List.mem_append, not_or] at unmet
    have notAround : middle.registry.scopeOf site.path ≠ some id := by
      intro scope
      rw [scopeOf_of_bare same] at scope
      exact unmet.1 (scope_mem_filled split first scope)
    rw [visited.getElem?_eq unmet.2 notAround, ih split first unmet.1]

/-- Visits of the first sites decorate the shells. -/
theorem decorates_of_visitAll {shells : Registry} (bare : shells.bare = shells) {schema : Schema}
    {front behind : List Site} (split : Site.inside [] schema = front ++ behind)
    (success : visitAll camelCaseKeys front ⟨shells, []⟩ = .ok done) :
    Decorates shells schema done := by
  have same := bare_of_visitAll success
  have known := knows_of_front split (knows_nil _) success
  obtain ⟨met, once⟩ := met_of_visitAll known rfl success
  obtain ⟨fits, _⟩ := (exists_visitAll_iff known rfl List.nodup_nil).mp ⟨done, success⟩
  rw [List.nil_append] at met
  refine
    { links := map_links_of_bare same
      lookup := ?_
      resolve := ?_
      met := ?_
      once := once List.nodup_nil
      untouched := fun id declaration found unmet => ?_ }
  · funext name
    rw [lookup, lookup, find?_of_bare same]
  · funext scope reference
    rw [← resolve_bare, same, resolve_bare]
  · refine ⟨_, _, by rw [Site.declarations, split, List.filter_append], ?_⟩
    rw [met]
    exact Site.forall₂_ids fits
  · rw [get_eq_ok_iff, getElem?_of_notMem_filled split success unmet] at found
    have atId := getElem?_bare shells id
    rw [bare, found, Option.map_some, Option.some.injEq] at atId
    exact ⟨get_eq_ok_iff.mpr found, Declaration.empty_iff.mpr atId.symm⟩

end Visits

end Contents

/-- The second pass over any trees decorates the shells that the first one leaves behind, whether it
ends or is stopped. If it ends, it has met the shells of all sites that declare something. What it
has made of the registry is the result of the compile, unless the builtin types are not distinct:
they are then refused before the first pass. -/
theorem ofSchema_decorates (settings : Settings) (schema : Schema) :
    Decorates (shellsOf settings schema) schema
        (Contents.reached
          (Contents.ofSchema settings.camelCaseKeys (shellsOf settings schema) schema)) ∧
      (∀ contents,
        Contents.ofSchema settings.camelCaseKeys (shellsOf settings schema) schema = .ok contents →
          List.Forall₂ (Site.IsAt (shellsOf settings schema)) (Site.declarations [] schema)
            contents.filled) ∧
      ∀ moment, (settings.builtinNames.Nodup ∧ (compile settings moment schema).result =
          ((Contents.ofSchema settings.camelCaseKeys (shellsOf settings schema) schema).mapError
            fun halt => halt.stopped.error).map Contents.registry) ∨
        ∃ error, withBuiltins settings.primitives settings.blob = .error error ∧
          (compile settings moment schema).result = .error (.ofRegistry error) := by
  obtain ⟨front, behind, split, visited⟩ :=
    Contents.visitAll_reached settings.camelCaseKeys (shellsOf settings schema) schema
  have bare := Shells.bare_ofSchema settings schema
  refine ⟨Contents.decorates_of_visitAll bare split visited, fun contents success => ?_,
    fun moment => ?_⟩
  · have all := Contents.visitAll_of_ofSchema success
    have known := Contents.knows_of_visitAll (knows_nil _) all
    obtain ⟨met, _⟩ := Contents.met_of_visitAll known rfl all
    obtain ⟨fits, _⟩ := (Contents.exists_fill_iff _ _ _).mp ⟨contents, all⟩
    rw [met]
    exact Site.forall₂_ids fits
  · cases result : withBuiltins settings.primitives settings.blob with
    | ok builtins =>
      obtain ⟨distinct, _⟩ := withBuiltins_eq_ok_iff.mp result
      exact .inl ⟨distinct, result_eq distinct moment schema⟩
    | error error =>
      refine .inr ⟨error, rfl, ?_⟩
      rw [compile, result]
      rfl

/-- The pass over the schema is stopped at the second enumeration that is declared under one name.
It has met the record and the first enumeration, and not the one that stands inside a comment. -/
theorem ofSchema_decorates_tangledSchema :
    ∃ contents, contents = Contents.reached (Contents.ofSchema Settings.default.camelCaseKeys
        (shellsOf Settings.default tangledSchema) tangledSchema) ∧
      Decorates (shellsOf Settings.default tangledSchema) tangledSchema contents ∧
      contents.filled = [9, 10] ∧
      (shellsOf Settings.default tangledSchema).lookup "Status" = .ok 11 := by
  obtain ⟨decorates, _⟩ := ofSchema_decorates Settings.default tangledSchema
  exact ⟨_, rfl, decorates, by decide, by decide⟩

end SchemaGraph
