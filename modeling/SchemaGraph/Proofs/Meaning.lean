import SchemaGraph.Proofs.ShellGraph
import SchemaGraph.Proofs.Verdicts

/-!
# What references mean in a well-formed schema

Where all names are fit and distinct, the records around every site stand inside one another in
the registry of shells as they do in the schema. What a reference at a site means can then be
said by names alone: it is the first of its candidates that anything is called.
-/

namespace SchemaGraph

open Node Registry

namespace Registry

/-- A reference from inside a path means a type: that of the declaration which has the first of
the candidate names that anything has. -/
def Means (registry : Registry) (path : List String) (reference : String) (type : SchemaType) :
    Prop :=
  ∃ name, (Name.candidates path reference).find? (· ∈ registry.names) = some name ∧
    registry.typeOf (registry.names.idxOf name) = .ok type

/-- What stands under a registered name has a type. -/
theorem exists_typeOf {registry : Registry} {name : String} (listed : name ∈ registry.names) :
    ∃ type, registry.typeOf (registry.names.idxOf name) = .ok type := by
  have inRange := List.idxOf_lt_length_iff.mpr listed
  rw [length_names, size] at inRange
  have atId := get_eq_ok_iff.mpr (List.getElem?_eq_getElem inRange)
  rw [typeOf, atId]
  exact ⟨_, rfl⟩

/-- A reference means something as soon as anything has one of its candidate names. -/
theorem exists_means_iff {registry : Registry} {path : List String} {reference : String} :
    (∃ type, registry.Means path reference type) ↔
      ∃ candidate ∈ Name.candidates path reference, candidate ∈ registry.names := by
  constructor
  · rintro ⟨type, name, found, _⟩
    exact ⟨name, List.mem_of_find?_eq_some found, by simpa using List.find?_some found⟩
  · rintro ⟨candidate, tried, listed⟩
    have some : ((Name.candidates path reference).find? (· ∈ registry.names)).isSome := by
      rw [List.find?_isSome]
      exact ⟨candidate, tried, by simpa using listed⟩
    obtain ⟨name, found⟩ := Option.isSome_iff_exists.mp some
    have known : name ∈ registry.names := by simpa using List.find?_some found
    obtain ⟨type, typed⟩ := exists_typeOf known
    exact ⟨type, name, found, typed⟩

/-- A reference means one type at most. -/
theorem Means.unique {registry : Registry} {path : List String} {reference : String}
    {type type' : SchemaType} (means : registry.Means path reference type)
    (means' : registry.Means path reference type') : type = type' := by
  obtain ⟨name, found, typed⟩ := means
  obtain ⟨name', found', typed'⟩ := means'
  rw [found, Option.some.injEq] at found'
  subst name'
  rw [typed] at typed'
  exact Except.ok.inj typed'

/-- What references mean is read off the shells. -/
theorem means_of_bare {registry registry' : Registry} (same : registry'.bare = registry.bare) :
    registry'.Means = registry.Means := by
  have names : registry'.names = registry.names := by
    rw [← names_bare, same, names_bare]
  have types (id : TypeId) : registry'.typeOf id = registry.typeOf id := by
    rw [← typeOf_bare, same, typeOf_bare]
  funext path reference type
  simp only [Means, names, types]

/-- Inside records that stand inside one another in the registry, a name denotes what it means. -/
theorem typeNamed_eq_ok_iff_means {registry : Registry} (precede : registry.ParentsPrecede)
    {path : List String} {scope : Option TypeId} (stands : registry.Stands path scope)
    {reference : String} {type : SchemaType} :
    registry.typeNamed scope reference = .ok type ↔ registry.Means path reference type := by
  rw [typeNamed, resolve_of_stands precede stands, Means]
  cases (Name.candidates path reference).find? (· ∈ registry.names) with
  | none => simp
  | some name =>
    simp only [Option.some.injEq, ↓existsAndEq, true_and]
    cases registry.typeOf (registry.names.idxOf name) <;> simp

/-- The scope of a path is the position of the name of its innermost record. -/
theorem scopeOf_eq_scopeId {registry : Registry} {path : List String}
    (listed : ∀ name, Name.ofPath? path = some name → name ∈ registry.names) :
    registry.scopeOf path = Site.scopeId registry.names path := by
  rw [scopeOf, Site.scopeId]
  cases named : Name.ofPath? path with
  | none => rfl
  | some name => rw [Option.bind_some, Option.map_some, find?_eq, if_pos (listed name named)]

/-- The name of a declaration is registered. -/
theorem mem_names_of_getElem? {registry : Registry} {id : TypeId} {declaration : Declaration}
    (found : registry.declarations[id]? = some declaration) : declaration.name ∈ registry.names :=
  List.mem_map_of_mem (List.mem_of_getElem? found)

/-- The name that a path spells is registered if records stand along the path. -/
theorem mem_names_of_stands {registry : Registry} {path : List String} {scope : Option TypeId}
    (stands : registry.Stands path scope) {name : String} (named : Name.ofPath? path = some name) :
    name ∈ registry.names := by
  cases path with
  | nil => simp [Name.ofPath?] at named
  | cons record outer =>
    obtain ⟨id, declaration, _, found, same, _⟩ := stands
    obtain rfl := Option.some.inj named
    exact same ▸ mem_names_of_getElem? found

end Registry

/-- The registry of the shells of a schema. -/
def shellGraph (settings : Settings) (schema : Schema) : Registry :=
  ⟨settings.builtins ++
    (Site.declarations [] schema).map (Site.shell (allNames settings schema))⟩

section ShellGraph

variable {settings : Settings} {schema : Schema}

/-- The graph of shells has the builtin names and those of the declarations, in this order. -/
theorem names_shellGraph : (shellGraph settings schema).names = allNames settings schema := by
  rw [shellGraph, names, List.map_append, Settings.map_name_builtins, List.map_map,
    Site.name_comp_shell]
  rfl

/-- A declaration of the schema has its shell under its name. -/
theorem getElem?_shellGraph (distinct : (allNames settings schema).Nodup) {site : Site}
    (declared : site ∈ Site.declarations [] schema) :
    (shellGraph settings schema).declarations[(allNames settings schema).idxOf site.name]? =
      some (site.shell (allNames settings schema)) := by
  obtain ⟨index, atIndex⟩ := List.mem_iff_getElem?.mp declared
  have position : (shellGraph settings schema).declarations[settings.builtins.length + index]? =
      some (site.shell (allNames settings schema)) := by
    rw [shellGraph, List.getElem?_append_right (Nat.le_add_right _ _), Nat.add_sub_cancel_left,
      List.getElem?_map, atIndex]
    rfl
  have found := find?_of_getElem? (names_shellGraph ▸ distinct) position
  rw [Site.name_shell, find?_eq, names_shellGraph] at found
  split at found
  · rwa [Option.some.inj found]
  · simp at found

/-- Every declared name is found, at its position among the names. -/
theorem find?_shellGraph {site : Site} (declared : site ∈ Site.declarations [] schema) :
    (shellGraph settings schema).find? site.name =
      some ((allNames settings schema).idxOf site.name) := by
  rw [find?_eq, names_shellGraph, if_pos]
  exact List.mem_append_right _ (List.mem_map_of_mem declared)

/-- The sites of well-placed nodes stand in the records that their paths spell. -/
private theorem stands_of_inside {names path : List String} {nodes : List Node}
    {registry : Registry}
    (registered : ∀ site ∈ Site.declarations path nodes,
      registry.declarations[names.idxOf site.name]? = some (site.shell names))
    (stands : registry.Stands path (Site.scopeId names path)) :
    ∀ site ∈ Site.inside path nodes, registry.Stands site.path (Site.scopeId names site.path) := by
  induction nodes using forest_induction generalizing path with
  | nil => simp [Site.inside]
  | cons node rest _ members ih =>
    rw [Site.inside_cons, List.forall_mem_cons, List.forall_mem_append]
    refine ⟨stands, ?_,
      ih (fun site declared => registered site (Site.mem_declarations_cons declared)) stands⟩
    by_cases kind : node.kind = .record
    · rw [if_pos kind]
      rw [Site.declarations_cons_record path kind, List.forall_mem_cons, List.forall_mem_append]
        at registered
      obtain ⟨here, inner, _⟩ := registered
      refine members inner ⟨_, _, rfl, here, Site.name_shell _ _, ?_⟩
      rw [Site.parent_shell]
      exact stands
    · simp [kind]

/-- Every site stands in the shells as it stands in the schema. -/
theorem stands_shellGraph (distinct : (allNames settings schema).Nodup) {site : Site}
    (listed : site ∈ Site.inside [] schema) :
    (shellGraph settings schema).Stands site.path
      (Site.scopeId (allNames settings schema) site.path) :=
  stands_of_inside (fun _ declared => getElem?_shellGraph distinct declared) rfl site listed

/-- The scope of a site is found under the name of the record around it. -/
theorem scopeOf_shellGraph (distinct : (allNames settings schema).Nodup) {site : Site}
    (listed : site ∈ Site.inside [] schema) :
    (shellGraph settings schema).scopeOf site.path =
      Site.scopeId (allNames settings schema) site.path := by
  rw [scopeOf_eq_scopeId fun name => mem_names_of_stands (stands_shellGraph distinct listed),
    names_shellGraph]

end ShellGraph

end SchemaGraph
