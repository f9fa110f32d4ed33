import Mathlib.Data.List.Perm.Basic
import SchemaGraph.Proofs.GraphEmbedding

/-!
# The order of declarations does not matter

A schema may declare its types in any order. Permuting the nodes of the top level permutes the
sites and with them the names, so it changes neither whether the schema is well formed nor what
a reference means. The graphs are the same up to the ids: an id moves to the place where its
name stands in the other registry.
-/

namespace SchemaGraph

open Node Registry

section Perm

variable {schema schema' : Schema}

/-- The nodes of a reordered schema are the same ones in another order. -/
theorem perm_subnodesIn (perm : schema.Perm schema') :
    (subnodesIn schema).Perm (subnodesIn schema') := by
  rw [subnodesIn_eq_flatMap, subnodesIn_eq_flatMap]
  exact perm.flatMap_right _

/-- The sites of a reordered schema are the same ones in another order. -/
theorem perm_inside (perm : schema.Perm schema') (path : List String) :
    (Site.inside path schema).Perm (Site.inside path schema') := by
  rw [Site.inside_eq_flatMap, Site.inside_eq_flatMap]
  exact perm.flatMap_right _

/-- The sites that declare something are the same ones in another order. -/
theorem perm_declarations (perm : schema.Perm schema') (path : List String) :
    (Site.declarations path schema).Perm (Site.declarations path schema') :=
  (perm_inside perm path).filter _

/-- A reordered schema has the same names, with those of the builtin types in front. -/
theorem perm_allNames (settings : Settings) (perm : schema.Perm schema') :
    (allNames settings schema).Perm (allNames settings schema') :=
  ((perm_declarations perm []).map _).append_left _

/-- Whether declarations are well placed does not depend on their order. -/
theorem WellPlaced.perm (perm : schema.Perm schema') (placed : WellPlaced schema) :
    WellPlaced schema' :=
  fun node listed => placed node ((perm_subnodesIn perm).mem_iff.mpr listed)

/-- Well-formedness does not depend on the order of the top level. -/
theorem WellFormed.perm {settings : Settings} (perm : schema.Perm schema')
    (formed : WellFormed settings schema) : WellFormed settings schema' := by
  have sites := perm_inside perm []
  have declared := perm_declarations perm []
  refine ⟨formed.builtins, fun node listed => ?_, ⟨?_, fun site listed => ?_⟩,
    fun site listed => ?_, fun site listed kind inRecord => ?_⟩
  · exact formed.named node ((perm_subnodesIn perm).mem_iff.mpr listed)
  · exact (((perm.filter _).map _).nodup_iff).mp formed.siblings.1
  · exact formed.siblings.2 site (declared.mem_iff.mpr listed)
  · exact formed.fresh site (declared.mem_iff.mpr listed)
  · obtain ⟨name, expression, extras, spelled, known, accepted⟩ :=
      formed.properties site (sites.mem_iff.mpr listed) kind inRecord
    refine ⟨name, expression, extras, spelled, fun reference mentioned => ?_, accepted⟩
    obtain ⟨candidate, tried, named⟩ := known reference mentioned
    exact ⟨candidate, tried, (perm_allNames settings perm).mem_iff.mp named⟩

end Perm

/-- The id under which another registry has what has this id. -/
def Registry.idIn (registry registry' : Registry) (id : TypeId) : TypeId :=
  registry'.names.idxOf (registry.names.getD id "")

/-- An id of one registry is carried over to the place of the same name in the other. -/
theorem Registry.idIn_idxOf {registry : Registry} (registry' : Registry) {name : String}
    (listed : name ∈ registry.names) :
    registry.idIn registry' (registry.names.idxOf name) = registry'.names.idxOf name := by
  rw [idIn, List.getD_eq_getElem?_getD, List.getElem?_idxOf listed, Option.getD_some]

/-- An id keeps its name where it moves to. -/
theorem Registry.nameOf_idIn {registry registry' : Registry}
    (known : ∀ name ∈ registry.names, name ∈ registry'.names) {id : TypeId} {name : String}
    (found : registry.nameOf id = .ok name) :
    registry'.nameOf (registry.idIn registry' id) = .ok name := by
  obtain ⟨declaration, atId, rfl⟩ := nameOf_eq_ok_iff.mp found
  have listed := mem_names_of_getElem? atId
  have here : registry.names[id]? = some declaration.name := by
    rw [names, List.getElem?_map, atId]
    rfl
  rw [idIn, List.getD_eq_getElem?_getD, here]
  exact nameOf_eq_ok_iff.mpr (getElem?_idxOf_name (known _ listed))

section Graphs

variable {settings : Settings} {schema schema' : Schema} {registry registry' : Registry}

/-- The two graphs have the same names. -/
theorem IsGraph.mem_names_iff (perm : schema.Perm schema')
    (graph : IsGraph settings schema registry) (graph' : IsGraph settings schema' registry')
    (name : String) :
    name ∈ registry.names ↔ name ∈ registry'.names := by
  rw [graph.names, graph'.names]
  exact (perm_allNames settings perm).mem_iff

/-- The graph of a schema is embedded in that of a permutation. -/
private theorem embeds_of_perm (perm : schema.Perm schema')
    (graph : IsGraph settings schema registry) (graph' : IsGraph settings schema' registry') :
    Embeds (registry.idIn registry') schema schema' registry registry' := by
  have same : (fun name => decide (name ∈ registry'.names)) =
      fun name => decide (name ∈ registry.names) :=
    funext fun name => decide_eq_decide.mpr (graph.mem_names_iff perm graph' name).symm
  refine ⟨fun site => (perm_declarations perm []).mem_iff.mp,
    fun name listed => idIn_idxOf registry' listed, fun site _ reference name found => ?_⟩
  rw [same, found]

/-- Every declaration moves to where its name stands, and only its ids change. -/
theorem IsGraph.perm (perm : schema.Perm schema') (graph : IsGraph settings schema registry)
    (graph' : IsGraph settings schema' registry') {id : TypeId} {declaration : Declaration}
    (found : registry.declarations[id]? = some declaration) :
    registry'.declarations[registry.idIn registry' id]? =
      some (declaration.rename (registry.idIn registry')) :=
  (embeds_of_perm perm graph graph').getElem? graph graph' found

end Graphs

/-- The order of the top level does not matter: it changes neither whether a schema compiles nor,
up to the ids, the graph that it compiles to. -/
theorem compile_perm {settings : Settings} (moment moment' : Instant) {schema schema' : Schema}
    (placed : WellPlaced schema) (perm : schema.Perm schema') :
    ((∃ registry, (compile settings moment schema).result = .ok registry) ↔
      ∃ registry, (compile settings moment' schema').result = .ok registry) ∧
    ∀ registry registry', (compile settings moment schema).result = .ok registry →
      (compile settings moment' schema').result = .ok registry' →
      registry.names.Perm registry'.names ∧
      (∀ id name, registry.nameOf id = .ok name →
        registry'.nameOf (registry.idIn registry' id) = .ok name) ∧
      ∀ id declaration, registry.declarations[id]? = some declaration →
        registry'.declarations[registry.idIn registry' id]? =
          some (declaration.rename (registry.idIn registry')) := by
  have placed' := placed.perm perm
  refine ⟨⟨?_, ?_⟩, fun registry registry' success success' => ?_⟩
  · rintro ⟨registry, success⟩
    exact ((wellFormed_of_result placed success).perm perm).result placed' moment'
  · rintro ⟨registry, success⟩
    exact ((wellFormed_of_result placed' success).perm perm.symm).result placed moment
  · have graph := isGraph_of_result placed success
    have graph' := isGraph_of_result placed' success'
    refine ⟨?_, fun id name => nameOf_idIn fun name => (graph.mem_names_iff perm graph' name).mp,
      fun id declaration => graph.perm perm graph'⟩
    rw [graph.names, graph'.names]
    exact perm_allNames settings perm

/-- Linked types may be declared back to front. -/
theorem compile_perm_linkedSchema :
    WellPlaced linkedSchema ∧ linkedSchema.Perm linkedSchema.reverse ∧ ∃ registry registry',
      (compile Settings.default Instant.epoch linkedSchema).result = .ok registry ∧
      (compile Settings.default Instant.epoch linkedSchema.reverse).result = .ok registry' ∧
      registry.names.Perm registry'.names := by
  have placed : WellPlaced linkedSchema := by decide
  have perm := (List.reverse_perm linkedSchema).symm
  obtain ⟨registry, success⟩ := wellFormed_linkedSchema.result placed Instant.epoch
  obtain ⟨succeeds, agree⟩ := compile_perm Instant.epoch Instant.epoch placed perm
  obtain ⟨registry', success'⟩ := succeeds.mp ⟨registry, success⟩
  exact ⟨placed, perm, registry, registry', success, success',
    (agree registry registry' success success').1⟩

end SchemaGraph
