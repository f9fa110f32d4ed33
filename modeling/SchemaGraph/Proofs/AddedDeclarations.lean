import SchemaGraph.Proofs.GraphEmbedding

/-!
# Adding declarations

Declarations may be added behind a schema without any effect on what stands in front of them. A
reference is tried inside each record around it before it is tried by itself, so an added type
could capture it only under a name that reaches inside one of these records. Such a name can be
declared inside the record alone, and what is added stands outside of it. So if both schemas
compile, every earlier declaration keeps its id and is the same in every field.
-/

namespace SchemaGraph

open Node Registry

section Names

variable {settings : Settings} {schema added : Schema}

/-- The names of a longer schema are those of the shorter one, with the added ones behind them. -/
theorem allNames_append (settings : Settings) (schema added : Schema) :
    allNames settings (schema ++ added) =
      allNames settings schema ++ (Site.declarations [] added).map Site.name := by
  rw [allNames, allNames, Site.declarations_append, List.map_append, List.append_assoc]

/-- No added name reaches inside a scope that was there before. -/
theorem mem_allNames_of_within (placed : WellPlaced (schema ++ added))
    (formed : WellFormed settings (schema ++ added)) {scope reference : String}
    (known : scope ∈ allNames settings schema)
    (listed : Name.within scope reference ∈ allNames settings (schema ++ added)) :
    Name.within scope reference ∈ allNames settings schema := by
  have distinct := formed.distinct placed
  rw [allNames_append] at distinct listed
  rcases List.mem_append.mp listed with earlier | new
  · exact earlier
  · obtain ⟨site, declared, named⟩ := List.mem_map.mp new
    have fit := (forall_declarations_iff placed).mpr formed.named
    rw [Site.declarations_append, List.forall_mem_append] at fit
    have free := Site.dotFree_innerPath (by simp) (fun other found => (fit.2 other found).dotFree)
      site declared
    -- The scope would be a record around the added name, and so it would be added as well.
    obtain ⟨record, outer, part, same⟩ := Name.exists_suffix_of_within free named.symm
    obtain ⟨around, declaredAround, path⟩ :=
      Site.exists_innerPath_eq (List.mem_filter.mp declared).1 part
    obtain ⟨rfl, rfl⟩ := List.cons.inj path
    have addedScope : scope ∈ (Site.declarations [] added).map Site.name :=
      List.mem_map.mpr ⟨around, declaredAround, same⟩
    exact absurd rfl ((List.nodup_append.mp distinct).2.2 scope known scope addedScope)

end Names

namespace Registry

/-- All records of a path that stands in a registry have their names there. -/
theorem Stands.mem_names_of_suffix {registry : Registry} {path : List String}
    {scope : Option TypeId} (stands : registry.Stands path scope) {record : String}
    {outer : List String} (part : record :: outer <:+ path) :
    Name.inside outer record ∈ registry.names := by
  induction path generalizing scope with
  | nil => simp at part
  | cons inner rest ih =>
    rcases List.suffix_cons_iff.mp part with here | further
    · exact mem_names_of_stands stands (here ▸ rfl)
    · obtain ⟨_, _, _, _, _, around⟩ := stands
      exact ih around further

end Registry

section Graph

variable {settings : Settings} {schema : Schema} {registry : Registry}

/-- The graph of a schema is its shells filled in. -/
theorem IsGraph.bare (graph : IsGraph settings schema registry) :
    registry.bare = (shellGraph settings schema).bare := by
  obtain ⟨user, split, described⟩ := graph.declarations
  have shells : List.Forall₂ (fun site declaration => declaration.bare =
      (site.shell (allNames settings schema)).bare) (Site.declarations [] schema) user :=
    described.imp fun _ _ describes => graph.names ▸ Filled.bare describes
  have same : user.map Declaration.bare = ((Site.declarations [] schema).map
      (Site.shell (allNames settings schema))).map Declaration.bare := by
    rw [← List.forall₂_eq_eq_eq, List.forall₂_map_left_iff, List.map_map,
      List.forall₂_map_right_iff]
    exact shells.flip
  rw [Registry.bare, Registry.bare, split, shellGraph, List.map_append, List.map_append, same]

/-- The record of a site stands in the graph as it stands in the schema. -/
theorem IsGraph.stands (graph : IsGraph settings schema registry) {site : Site}
    (declared : site ∈ Site.declarations [] schema) :
    registry.Stands site.innerPath (some (registry.names.idxOf site.name)) := by
  obtain ⟨declaration, found, describes⟩ := graph.describes declared
  have shell := Filled.bare describes
  have named : declaration.name = site.name := by
    rw [← Declaration.name_bare, shell, Declaration.name_bare, Site.name_shell]
  have around : declaration.parent = Site.scopeId registry.names site.path := by
    rw [← Declaration.parent_bare, shell, Declaration.parent_bare, Site.parent_shell]
  have outer := stands_shellGraph (graph.names ▸ graph.distinct) (List.mem_filter.mp declared).1
  refine ⟨_, declaration, rfl, found, named, ?_⟩
  rw [around, graph.names]
  exact outer.of_keeps (Keeps.of_bare graph.bare)

/-- Every declaration of the graph stands in it under some path. -/
theorem IsGraph.exists_stands (graph : IsGraph settings schema registry) {id : TypeId}
    {declaration : Declaration} (found : registry.declarations[id]? = some declaration) :
    ∃ path, registry.Stands path (some id) := by
  rcases graph.cases found with builtin | ⟨site, declared, rfl, _⟩
  · have same := Option.some.inj (found.symm.trans (graph.builtin builtin))
    have outside := (Settings.bare_builtins (List.getElem_mem builtin)).2
    rw [← same] at outside
    exact ⟨[declaration.name], id, declaration, rfl, found, rfl, outside⟩
  · exact ⟨site.innerPath, graph.stands declared⟩

end Graph

section Append

variable {settings : Settings} {schema added : Schema} {registry registry' : Registry}

/-- The names of the longer schema's graph are those of the shorter one's, with the added
declarations registered behind them. -/
theorem IsGraph.names_append (graph : IsGraph settings schema registry)
    (graph' : IsGraph settings (schema ++ added) registry') :
    registry'.names = registry.names ++ (Site.declarations [] added).map Site.name := by
  rw [graph.names, graph'.names, allNames_append]

/-- No added type captures a reference: what it stands for stays the same. -/
theorem find?_candidates_append (placed : WellPlaced (schema ++ added))
    (formed : WellFormed settings (schema ++ added)) (graph : IsGraph settings schema registry)
    (graph' : IsGraph settings (schema ++ added) registry') {path : List String}
    {scope : Option TypeId} (stands : registry.Stands path scope) {reference name : String}
    (found : (Name.candidates path reference).find? (· ∈ registry.names) = some name) :
    (Name.candidates path reference).find? (· ∈ registry'.names) = some name := by
  refine Name.find?_candidates_of_apart (fun name listed => ?_) ?_ found
  · rw [graph.names_append graph']
    exact List.mem_append_left _ listed
  · intro record outer part listed
    have known := stands.mem_names_of_suffix part
    rw [graph.names] at known ⊢
    rw [graph'.names] at listed
    exact mem_allNames_of_within placed formed known listed

/-- The graph of a schema is embedded in that of a longer one, and no id moves. -/
theorem embeds_of_append (placed : WellPlaced (schema ++ added))
    (formed : WellFormed settings (schema ++ added)) (graph : IsGraph settings schema registry)
    (graph' : IsGraph settings (schema ++ added) registry') :
    Embeds id schema (schema ++ added) registry registry' := by
  refine ⟨fun site declared => ?_, fun name listed => ?_, fun site declared reference name found =>
    find?_candidates_append placed formed graph graph' (graph.stands declared) found⟩
  · rw [Site.declarations_append]
    exact List.mem_append_left _ declared
  · rw [graph.names_append graph', List.idxOf_append_of_mem listed]
    rfl

/-- Every declaration keeps its id and all of its fields. -/
theorem IsGraph.append (placed : WellPlaced (schema ++ added))
    (formed : WellFormed settings (schema ++ added)) (graph : IsGraph settings schema registry)
    (graph' : IsGraph settings (schema ++ added) registry') {id : TypeId}
    {declaration : Declaration} (found : registry.declarations[id]? = some declaration) :
    registry'.declarations[id]? = some declaration := by
  have kept := (embeds_of_append placed formed graph graph').getElem? graph graph' found
  rwa [Declaration.rename_id] at kept

/-- Every reference that denotes a type denotes the same one after declarations are added. -/
theorem resolve_append (placed : WellPlaced (schema ++ added))
    (formed : WellFormed settings schema) (formed' : WellFormed settings (schema ++ added))
    (graph : IsGraph settings schema registry)
    (graph' : IsGraph settings (schema ++ added) registry') {scope : Option TypeId}
    {reference : String} {id : TypeId} (resolved : registry.resolve scope reference = .ok id) :
    registry'.resolve scope reference = .ok id := by
  obtain ⟨path, stands⟩ : ∃ path, registry.Stands path scope := by
    cases scope with
    | none => exact ⟨[], rfl⟩
    | some around =>
      cases found : registry.declarations[around]? with
      | none => simp [resolve, scopeName, nameOf, Registry.get, found, Except.map] at resolved
      | some declaration => exact graph.exists_stands found
  have keeps : registry.Keeps registry' :=
    ⟨fun id declaration found => ⟨declaration, graph.append placed formed' graph' found, rfl, rfl,
      rfl⟩⟩
  have precede := (formed.sound placed.append_left).precede.of_bare graph.bare
  have precede' := (formed'.sound placed).precede.of_bare graph'.bare
  rw [resolve_of_stands precede stands] at resolved
  rw [resolve_of_stands precede' (stands.of_keeps keeps)]
  split at resolved
  · rename_i name found
    have listed : name ∈ registry.names := by simpa using List.find?_some found
    rw [find?_candidates_append placed formed' graph graph' stands found, ← resolved,
      graph.names_append graph']
    exact congrArg Except.ok (List.idxOf_append_of_mem listed)
  · simp at resolved

end Append

/-- Adding declarations changes nothing that was there. If a schema compiles and compiles again
with declarations added behind it, each declaration of the first graph stands in the second one
under the same id with the same contents, and every reference from any scope that denoted a type
denotes the same one. -/
theorem compile_append {settings : Settings} {moment moment' : Instant} {schema added : Schema}
    {registry registry' : Registry} (placed : WellPlaced (schema ++ added))
    (success : (compile settings moment schema).result = .ok registry)
    (success' : (compile settings moment' (schema ++ added)).result = .ok registry') :
    (∀ (id : TypeId) (declaration : Declaration),
      registry.declarations[id]? = some declaration →
        registry'.declarations[id]? = some declaration) ∧
    ∀ (scope : Option TypeId) (reference : String) (id : TypeId),
      registry.resolve scope reference = .ok id → registry'.resolve scope reference = .ok id := by
  have formed := wellFormed_of_result placed.append_left success
  have formed' := wellFormed_of_result placed success'
  have graph := isGraph_of_result placed.append_left success
  have graph' := isGraph_of_result placed success'
  exact ⟨fun _ _ => graph.append placed formed' graph',
    fun _ _ _ => resolve_append placed formed formed' graph graph'⟩

/-- Declarations of names that are referred to in the linked schema, at other places. -/
def rivalDeclarations : Schema :=
  [record "State" [enumeration "Level" ["none"], record "Task" []]]

/-- The added declarations refer to one another and to what was there before, and may be added. -/
theorem wellFormed_linkedSchema_append :
    WellFormed Settings.default (linkedSchema ++ rivalDeclarations) := by
  refine ⟨by decide, by decide, by decide, by decide, fun site listed kind inRecord => ?_⟩
  rw [Site.inside_append, List.mem_append] at listed
  rcases listed with earlier | new
  · refine (wellFormed_linkedSchema.properties site earlier kind inRecord).mono fun name known => ?_
    rw [allNames_append]
    exact List.mem_append_left _ known
  · have silent : ∀ site ∈ Site.inside [] rivalDeclarations, site.node.kind ≠ .property := by decide
    exact absurd kind (silent site new)

/-- A compile keeps every declaration as it was, although the added ones have the local names of
some of them. -/
theorem compile_append_rivalDeclarations :
    WellPlaced (linkedSchema ++ rivalDeclarations) ∧ ∃ registry registry',
      (compile Settings.default Instant.epoch linkedSchema).result = .ok registry ∧
      (compile Settings.default Instant.epoch (linkedSchema ++ rivalDeclarations)).result =
        .ok registry' ∧
      ∀ (id : TypeId) (declaration : Declaration),
        registry.declarations[id]? = some declaration →
          registry'.declarations[id]? = some declaration := by
  have placed : WellPlaced (linkedSchema ++ rivalDeclarations) := by decide
  obtain ⟨registry, success⟩ :=
    wellFormed_linkedSchema.result placed.append_left Instant.epoch
  obtain ⟨registry', success'⟩ := wellFormed_linkedSchema_append.result placed Instant.epoch
  exact ⟨placed, registry, registry', success, success',
    (compile_append placed success success').1⟩

end SchemaGraph
