import SchemaGraph.Proofs.Renaming

/-!
# Embedding one graph into another

Two schemas may share declarations whose ids differ. If ids move along with the names, and every
reference of the first schema stands for the same name in both, then each declaration of the first
graph is found in the second where its id has moved to, with nothing but its ids changed.
-/

namespace SchemaGraph

open Node Registry

/-- A registered name leads to a declaration of this name. -/
theorem Registry.getElem?_idxOf_name {registry : Registry} {name : String}
    (listed : name ∈ registry.names) :
    ∃ declaration, registry.declarations[registry.names.idxOf name]? = some declaration ∧
      declaration.name = name := by
  apply name_of_find?
  rw [find?_eq, if_pos listed]

/-- A declaration stands where its name does. -/
theorem Registry.idxOf_name {registry : Registry} (distinct : registry.names.Nodup) {id : TypeId}
    {declaration : Declaration} (found : registry.declarations[id]? = some declaration) :
    registry.names.idxOf declaration.name = id := by
  have position := find?_of_getElem? distinct found
  rw [find?_eq, if_pos (mem_names_of_getElem? found)] at position
  exact Option.some.inj position

/-- Every declared name is in the graph. -/
theorem IsGraph.mem_names {settings : Settings} {schema : Schema} {registry : Registry}
    (graph : IsGraph settings schema registry) {site : Site}
    (declared : site ∈ Site.declarations [] schema) : site.name ∈ registry.names := by
  rw [graph.names]
  exact List.mem_append_right _ (List.mem_map_of_mem declared)

/-- The declarations of a schema are declared by another one as well, ids move along with the names
of the registries, and references at these declarations stand for the same names in both. -/
structure Embeds (move : TypeId → TypeId) (schema schema' : Schema)
    (registry registry' : Registry) : Prop where
  sites : ∀ site ∈ Site.declarations [] schema, site ∈ Site.declarations [] schema'
  moves : ∀ name ∈ registry.names, move (registry.names.idxOf name) = registry'.names.idxOf name
  references : ∀ site ∈ Site.declarations [] schema, ∀ reference name,
    (Name.candidates site.innerPath reference).find? (· ∈ registry.names) = some name →
    (Name.candidates site.innerPath reference).find? (· ∈ registry'.names) = some name

section Embeds

variable {settings : Settings} {schema schema' : Schema} {registry registry' : Registry}
  {move : TypeId → TypeId}

/-- A builtin type has the same id in both graphs. -/
private theorem Embeds.builtin (embeds : Embeds move schema schema' registry registry')
    (graph : IsGraph settings schema registry) (graph' : IsGraph settings schema' registry')
    {id : Nat} (inRange : id < settings.builtins.length) : move id = id := by
  have found := graph.builtin inRange
  have moved := embeds.moves _ (mem_names_of_getElem? found)
  rwa [idxOf_name graph.distinct found,
    idxOf_name graph'.distinct (graph'.builtin inRange)] at moved

/-- What has a name in the first graph has the same name where it moves to. -/
private theorem Embeds.nameOf (embeds : Embeds move schema schema' registry registry')
    (graph : IsGraph settings schema registry) (graph' : IsGraph settings schema' registry')
    {id : TypeId} {name : String} (found : registry.nameOf id = .ok name) :
    registry'.nameOf (move id) = .ok name := by
  obtain ⟨declaration, atId, rfl⟩ := nameOf_eq_ok_iff.mp found
  have listed := mem_names_of_getElem? atId
  have known : declaration.name ∈ registry'.names := by
    rw [graph.names] at listed
    rw [graph'.names]
    rcases List.mem_append.mp listed with builtin | user
    · exact List.mem_append_left _ builtin
    · obtain ⟨site, declared, named⟩ := List.mem_map.mp user
      exact List.mem_append_right _ (List.mem_map.mpr ⟨site, embeds.sites site declared, named⟩)
  have moved := embeds.moves _ listed
  rw [idxOf_name graph.distinct atId] at moved
  exact nameOf_eq_ok_iff.mpr (moved ▸ getElem?_idxOf_name known)

/-- Two graphs of the same sites have the same kind of declaration under a name. -/
private theorem Embeds.typeOf (embeds : Embeds move schema schema' registry registry')
    (graph : IsGraph settings schema registry) (graph' : IsGraph settings schema' registry')
    {name : String} (listed : name ∈ registry.names) {type : SchemaType}
    (typed : registry.typeOf (registry.names.idxOf name) = .ok type) :
    registry'.typeOf (registry'.names.idxOf name) = .ok (type.rename move) := by
  obtain ⟨declaration, get, rfl⟩ := map_eq_ok_iff.mp typed
  have atId := get_eq_ok_iff.mp get
  rw [← embeds.moves name listed]
  rcases graph.cases atId with builtin | ⟨site, declared, position, describes⟩
  · rw [embeds.builtin graph graph' builtin]
    have same := atId.symm.trans (graph.builtin builtin)
    have notUser := Settings.isUser_builtins (List.getElem_mem builtin)
    rw [Option.some.injEq] at same
    rw [← same] at notUser
    rw [Registry.typeOf, get_eq_ok_iff.mpr (graph'.builtin builtin), ← same]
    cases declaration <;> first | rfl | simp [Declaration.isUser] at notUser
  · obtain ⟨declaration', atId', describes'⟩ := graph'.describes (embeds.sites site declared)
    have moved := embeds.moves _ (graph.mem_names declared)
    rw [position, moved, Registry.typeOf, get_eq_ok_iff.mpr atId']
    have kind := Site.Describes.kind describes
    have kind' := Site.Describes.kind describes'
    rw [declaredKind] at kind kind'
    split at kind <;> cases declaration <;> cases declaration' <;>
      simp_all [Declaration.kind, Except.map, SchemaType.rename]

/-- A reference means the same type in both graphs, up to its ids. -/
private theorem Embeds.means (embeds : Embeds move schema schema' registry registry')
    (graph : IsGraph settings schema registry) (graph' : IsGraph settings schema' registry')
    {site : Site} (declared : site ∈ Site.declarations [] schema) {reference : String}
    {type : SchemaType} (means : registry.Means site.innerPath reference type) :
    registry'.Means site.innerPath reference (type.rename move) := by
  obtain ⟨name, found, typed⟩ := means
  refine ⟨name, embeds.references site declared reference name found,
    embeds.typeOf graph graph' ?_ typed⟩
  simpa using List.find?_some found

/-- The parent and the children of a declaration move to where their names stand. -/
private theorem Embeds.shell (embeds : Embeds move schema schema' registry registry')
    (graph : IsGraph settings schema registry) {site : Site}
    (declared : site ∈ Site.declarations [] schema) :
    (site.shell registry.names).rename move = site.shell registry'.names := by
  have parent : (Site.scopeId registry.names site.path).map move =
      Site.scopeId registry'.names site.path := by
    rcases Site.exists_enclosing (List.mem_filter.mp declared).1 with
      ⟨top, _⟩ | ⟨outer, around, _, _, path⟩
    · rw [top]
      rfl
    · rw [path]
      exact congrArg some (embeds.moves _ (graph.mem_names around))
  cases kind : site.node.kind with
  | record =>
    have children : (Site.childIds registry.names site.innerPath site.node.members).map move =
        Site.childIds registry'.names site.innerPath site.node.members := by
      rw [Site.childIds, List.map_map, Site.childIds]
      refine List.map_congr_left fun localName listed => ?_
      obtain ⟨member, inside, rfl⟩ := List.mem_map.mp listed
      have child : Site.mk site.innerPath member ∈ Site.declarations [] schema :=
        (Site.members_sublist declared kind).subset
          ((Site.siblings_sublist _ _).subset (List.mem_map_of_mem inside))
      exact embeds.moves _ (graph.mem_names child)
    simp only [Site.shell, kind, Declaration.rename, RecordType.shell, parent, children]
    rfl
  | _ => simp only [Site.shell, kind, Declaration.rename, EnumType.shell, parent]

/-- What a site describes in one graph it describes in the other, up to the ids. -/
private theorem Embeds.describes (embeds : Embeds move schema schema' registry registry')
    (graph : IsGraph settings schema registry) (graph' : IsGraph settings schema' registry')
    {site : Site} (declared : site ∈ Site.declarations [] schema) {declaration : Declaration}
    (describes : site.Describes registry settings.camelCaseKeys declaration) :
    site.Describes registry' settings.camelCaseKeys (declaration.rename move) := by
  have renamed (reference : String) (type : SchemaType)
      (means : registry.Means site.innerPath reference type) :=
    embeds.means graph graph' declared means
  have sameName (id : TypeId) (name : String) (found : registry.nameOf id = .ok name) :=
    embeds.nameOf graph graph' found
  have moved := Filled.rename renamed sameName describes
  rwa [embeds.shell graph declared, embeds.moves _ (graph.mem_names declared)] at moved

/-- Every declaration moves to where its name stands, and only its ids change. -/
theorem Embeds.getElem? (embeds : Embeds move schema schema' registry registry')
    (graph : IsGraph settings schema registry) (graph' : IsGraph settings schema' registry')
    {id : TypeId} {declaration : Declaration}
    (found : registry.declarations[id]? = some declaration) :
    registry'.declarations[move id]? = some (declaration.rename move) := by
  rcases graph.cases found with builtin | ⟨site, declared, rfl, describes⟩
  · have same := found.symm.trans (graph.builtin builtin)
    have notUser := Settings.isUser_builtins (List.getElem_mem builtin)
    rw [embeds.builtin graph graph' builtin, graph'.builtin builtin, Option.some.inj same,
      Declaration.rename_builtin _ notUser]
  · obtain ⟨declaration', found', describes'⟩ := graph'.describes (embeds.sites site declared)
    rw [embeds.moves _ (graph.mem_names declared), found']
    have functional (reference : String) (type type' : SchemaType)
        (means : registry'.Means site.innerPath reference type)
        (means' : registry'.Means site.innerPath reference type') : type = type' :=
      means.unique means'
    exact congrArg some (Filled.unique functional describes'
      (embeds.describes graph graph' declared describes))

end Embeds

end SchemaGraph
