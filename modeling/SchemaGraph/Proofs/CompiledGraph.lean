import SchemaGraph.Proofs.PassAgreement

/-!
# The compiled graph

The graph of a well-placed schema is what the schema says and nothing else. Behind the builtin
types stand the declarations of the schema in document order. Each is its shell, which has its
name, its parent and its children, filled in with what its members describe.
-/

namespace SchemaGraph

open Node Registry

namespace Site

/-- A node inside another declaration adds nothing to the contents of this one. -/
theorem nodesFor_record {path : List String} {node : Node} {name : String}
    (outside : Name.ofPath? path ≠ some name) (other : node.kind ≠ .enumeration) :
    nodesFor name ⟨path, node⟩ = [] := by
  rw [nodesFor_of_ne_enumeration other, if_neg outside]

/-- The contents of an enumeration are given by its own node. -/
theorem nodesFor_enumeration {path : List String} {node : Node} (kind : node.kind = .enumeration)
    (outside : Name.ofPath? path ≠ some (Site.name ⟨path, node⟩)) :
    nodesFor (Site.name ⟨path, node⟩) ⟨path, node⟩ = node.members := by
  rw [nodesFor, if_neg outside, if_pos ⟨kind, rfl⟩, List.nil_append]

/-- A node of another name and place adds nothing. -/
theorem nodesFor_stranger {path : List String} {node : Node} {name : String}
    (outside : Name.ofPath? path ≠ some name) (apart : Site.name ⟨path, node⟩ ≠ name) :
    nodesFor name ⟨path, node⟩ = [] := by
  rw [nodesFor, if_neg outside, if_neg fun same => apart same.2, List.nil_append]

/-- The nodes that are meant for a declaration are found at a record, inside it and behind it. -/
theorem flatMap_nodesFor_cons_record {path : List String} {node : Node}
    (kind : node.kind = .record) (rest : List Node) (name : String) :
    (inside path (node :: rest)).flatMap (nodesFor name) =
      nodesFor name ⟨path, node⟩ ++
        ((inside (node.localName :: path) node.members).flatMap (nodesFor name) ++
          (inside path rest).flatMap (nodesFor name)) := by
  rw [inside_cons, if_pos kind, List.flatMap_cons, List.flatMap_append]

/-- There are no sites inside other nodes than records. -/
theorem flatMap_nodesFor_cons_other {path : List String} {node : Node}
    (other : node.kind ≠ .record) (rest : List Node) (name : String) :
    (inside path (node :: rest)).flatMap (nodesFor name) =
      nodesFor name ⟨path, node⟩ ++ (inside path rest).flatMap (nodesFor name) := by
  rw [inside_cons, if_neg other, List.nil_append, List.flatMap_cons]

/-- No node is meant for a declaration that stands elsewhere. -/
theorem flatMap_nodesFor_stranger {path : List String} {nodes : List Node} {name : String}
    (outside : Name.ofPath? path ≠ some name)
    (absent : name ∉ (declarations path nodes).map Site.name) :
    (inside path nodes).flatMap (nodesFor name) = [] := by
  induction nodes using declaration_induction generalizing path with
  | nil => rfl
  | record node rest kind members ih =>
    rw [declarations_cons_record path kind, List.map_cons, List.map_append, List.mem_cons,
      List.mem_append, not_or, not_or] at absent
    obtain ⟨apart, inner, behind⟩ := absent
    have within : Name.ofPath? (node.localName :: path) ≠ some name :=
      fun same => apart (Option.some.inj same).symm
    rw [flatMap_nodesFor_cons_record kind, members within inner, ih outside behind,
      nodesFor_record outside (by simp [kind])]
    rfl
  | enumeration node rest kind ih =>
    rw [declarations_cons_enumeration path kind, List.map_cons, List.mem_cons, not_or] at absent
    rw [flatMap_nodesFor_cons_other (by simp [kind]), ih outside absent.2,
      nodesFor_stranger outside (Ne.symm absent.1)]
    rfl
  | other node rest silent ih =>
    rw [declarations_cons_other path silent] at absent
    rw [flatMap_nodesFor_cons_other (ne_record_of_silent silent), ih outside absent,
      nodesFor_record outside fun kind => by simp [Node.declares, kind] at silent]
    rfl

/-- The nodes inside a record are meant for it. -/
theorem flatMap_nodesFor_within {path : List String} {nodes : List Node} {name : String}
    (within : Name.ofPath? path = some name)
    (absent : name ∉ (declarations path nodes).map Site.name) :
    (inside path nodes).flatMap (nodesFor name) = nodes := by
  induction nodes using declaration_induction with
  | nil => rfl
  | record node rest kind _ ih =>
    rw [declarations_cons_record path kind, List.map_cons, List.map_append, List.mem_cons,
      List.mem_append, not_or, not_or] at absent
    obtain ⟨apart, inner, behind⟩ := absent
    have deeper : Name.ofPath? (node.localName :: path) ≠ some name :=
      fun same => apart (Option.some.inj same).symm
    rw [flatMap_nodesFor_cons_record kind, flatMap_nodesFor_stranger deeper inner, ih behind,
      nodesFor_of_ne_enumeration (by simp [kind]), if_pos within]
    rfl
  | enumeration node rest kind ih =>
    rw [declarations_cons_enumeration path kind, List.map_cons, List.mem_cons, not_or] at absent
    have values : ¬ (node.kind = .enumeration ∧ Site.name ⟨path, node⟩ = name) :=
      fun same => absent.1 same.2.symm
    rw [flatMap_nodesFor_cons_other (by simp [kind]), ih absent.2, nodesFor, if_pos within,
      if_neg values]
    rfl
  | other node rest silent ih =>
    rw [declarations_cons_other path silent] at absent
    have notEnumeration : node.kind ≠ .enumeration :=
      fun kind => by simp [Node.declares, kind] at silent
    rw [flatMap_nodesFor_cons_other (ne_record_of_silent silent), ih absent,
      nodesFor_of_ne_enumeration notEnumeration, if_pos within]
    rfl

/-- Where names are distinct, the nodes that are meant for a declaration are its members. -/
theorem flatMap_nodesFor_declared {path : List String} {nodes : List Node} {site : Site}
    (distinct : ((declarations path nodes).map Site.name).Nodup)
    (outside : ∀ other ∈ declarations path nodes, Name.ofPath? path ≠ some other.name)
    (declared : site ∈ declarations path nodes) :
    (inside path nodes).flatMap (nodesFor site.name) = site.node.members := by
  induction nodes using declaration_induction generalizing path with
  | nil => simp [declarations_nil] at declared
  | record node rest kind members ih =>
    rw [declarations_cons_record path kind] at distinct outside declared
    rw [List.map_cons, List.map_append, List.nodup_cons, List.mem_append, not_or,
      List.nodup_append] at distinct
    obtain ⟨⟨notInner, notBehind⟩, innerDistinct, behindDistinct, apart⟩ := distinct
    rw [List.forall_mem_cons, List.forall_mem_append] at outside
    obtain ⟨here, outsideInner, outsideRest⟩ := outside
    have isRecord : node.kind ≠ .enumeration := by simp [kind]
    rw [flatMap_nodesFor_cons_record kind]
    rcases List.mem_cons.mp declared with rfl | deeper
    · rw [nodesFor_record here isRecord, flatMap_nodesFor_within rfl notInner,
        flatMap_nodesFor_stranger here notBehind, List.nil_append, List.append_nil]
    · rcases List.mem_append.mp deeper with inner | behind
      · have named := List.mem_map_of_mem (f := Site.name) inner
        have notLater : site.name ∉ (declarations path rest).map Site.name :=
          fun later => apart _ named _ later rfl
        have below : ∀ other ∈ declarations (node.localName :: path) node.members,
            Name.ofPath? (node.localName :: path) ≠ some other.name :=
          fun other listed same =>
            notInner (List.mem_map.mpr ⟨other, listed, (Option.some.inj same).symm⟩)
        rw [nodesFor_record (outsideInner site inner) isRecord, members innerDistinct below inner,
          flatMap_nodesFor_stranger (outsideInner site inner) notLater, List.nil_append,
          List.append_nil]
      · have named := List.mem_map_of_mem (f := Site.name) behind
        have notEarlier : site.name ∉
            (declarations (node.localName :: path) node.members).map Site.name :=
          fun earlier => apart _ earlier _ named rfl
        have deeper : Name.ofPath? (node.localName :: path) ≠ some site.name :=
          fun same => notBehind (List.mem_map.mpr ⟨site, behind, (Option.some.inj same).symm⟩)
        rw [nodesFor_record (outsideRest site behind) isRecord,
          flatMap_nodesFor_stranger deeper notEarlier, ih behindDistinct outsideRest behind]
        rfl
  | enumeration node rest kind ih =>
    rw [declarations_cons_enumeration path kind] at distinct outside declared
    rw [List.map_cons, List.nodup_cons] at distinct
    obtain ⟨notBehind, behindDistinct⟩ := distinct
    rw [List.forall_mem_cons] at outside
    obtain ⟨here, outsideRest⟩ := outside
    rw [flatMap_nodesFor_cons_other (by simp [kind])]
    rcases List.mem_cons.mp declared with rfl | behind
    · rw [nodesFor_enumeration kind here, flatMap_nodesFor_stranger here notBehind, List.append_nil]
    · have named := List.mem_map_of_mem (f := Site.name) behind
      have other : Site.name ⟨path, node⟩ ≠ site.name := fun same => notBehind (same ▸ named)
      rw [nodesFor_stranger (outsideRest site behind) other, ih behindDistinct outsideRest behind,
        List.nil_append]
  | other node rest silent ih =>
    rw [declarations_cons_other path silent] at distinct outside declared
    have notEnumeration : node.kind ≠ .enumeration :=
      fun kind => by simp [Node.declares, kind] at silent
    rw [flatMap_nodesFor_cons_other (ne_record_of_silent silent),
      nodesFor_record (outside site declared) notEnumeration, ih distinct outside declared,
      List.nil_append]

end Site

namespace Registry

/-- What fills a declaration in depends on the meaning of names inside it only. -/
theorem Filled.mono {registry registry' : Registry} {named named' : String → SchemaType → Prop}
    {camelCaseKeys : Bool} {id : TypeId} {nodes : List Node} {shell declaration : Declaration}
    (weaker : shell.kind = .record → ∀ reference type, named reference type → named' reference type)
    (same : registry'.bare = registry.bare)
    (filled : registry.Filled named camelCaseKeys id nodes shell declaration) :
    registry'.Filled named' camelCaseKeys id nodes shell declaration := by
  cases filled with
  | builtin builtin => exact .builtin builtin
  | record described commented =>
    exact .record (described.imp fun _ _ describes => describes.mono (weaker rfl) same) commented
  | enumeration commented => exact .enumeration commented

end Registry

/-- The site describes the declaration in the registry: the declaration is the shell of the site,
filled in with what its members describe, where references mean what they mean inside it. -/
def Site.Describes (registry : Registry) (camelCaseKeys : Bool) (site : Site)
    (declaration : Declaration) : Prop :=
  registry.Filled (registry.Means site.innerPath) camelCaseKeys (registry.names.idxOf site.name)
    site.node.members (site.shell registry.names) declaration

/-- A node describes a declaration of the kind that it declares. -/
theorem Site.Describes.kind {registry : Registry} {camelCaseKeys : Bool} {site : Site}
    {declaration : Declaration} (describes : site.Describes registry camelCaseKeys declaration) :
    declaration.kind = site.node.declaredKind :=
  (Filled.kind describes).trans (Site.kind_shell registry.names site)

section

variable {settings : Settings} {schema : Schema}

/-- The declaration of a site after the second pass. -/
private theorem describes_of_visitAll (placed : WellPlaced schema)
    (formed : WellFormed settings schema) {contents : Contents}
    (visited : Contents.visitAll settings.camelCaseKeys (Site.inside [] schema)
      ⟨shellGraph settings schema, []⟩ = .ok contents) {site : Site}
    (declared : site ∈ Site.declarations [] schema) :
    ∃ declaration,
      contents.registry.declarations[(allNames settings schema).idxOf site.name]? =
        some declaration ∧
      site.Describes contents.registry settings.camelCaseKeys declaration := by
  have distinct := formed.distinct placed
  have sound := formed.sound placed
  have same := Contents.bare_of_visitAll visited
  have names : contents.registry.names = allNames settings schema := by
    rw [← names_bare, same, names_bare, names_shellGraph]
  have isShell := getElem?_shellGraph distinct declared
  obtain ⟨declaration, atId, filled⟩ := Contents.filled_of_visitAll sound.distinct sound.bare
    (Contents.knows_of_visitAll (knows_nil _) visited) visited isShell
  have ownMembers := Site.flatMap_nodesFor_declared (List.nodup_append.mp distinct).2.1
    (fun other _ => by simp [Name.ofPath?]) declared
  rw [Site.name_shell, ownMembers] at filled
  refine ⟨declaration, atId, ?_⟩
  rw [Site.Describes, names]
  refine filled.mono (fun _ reference type named => ?_) same
  have stands : (shellGraph settings schema).Stands site.innerPath
      (some ((allNames settings schema).idxOf site.name)) := by
    refine ⟨_, _, rfl, isShell, Site.name_shell _ _, ?_⟩
    rw [Site.parent_shell]
    exact stands_shellGraph distinct (List.mem_filter.mp declared).1
  rw [means_of_bare same]
  exact (typeNamed_eq_ok_iff_means sound.precede stands).mp named

/-- The builtin types are as they were registered. -/
private theorem builtins_of_visitAll (placed : WellPlaced schema)
    (formed : WellFormed settings schema) {contents : Contents}
    (visited : Contents.visitAll settings.camelCaseKeys (Site.inside [] schema)
      ⟨shellGraph settings schema, []⟩ = .ok contents) :
    contents.registry.declarations.take settings.builtins.length = settings.builtins := by
  have sound := formed.sound placed
  apply List.ext_getElem?
  intro id
  rw [List.getElem?_take]
  split
  · rename_i inRange
    have isShell : (shellGraph settings schema).declarations[id]? = some settings.builtins[id] := by
      rw [shellGraph, List.getElem?_append_left inRange, List.getElem?_eq_getElem inRange]
    obtain ⟨declaration, atId, filled⟩ := Contents.filled_of_visitAll sound.distinct sound.bare
      (Contents.knows_of_visitAll (knows_nil _) visited) visited isShell
    have builtin := Settings.isUser_builtins (List.getElem_mem inRange)
    rw [atId, List.getElem?_eq_getElem inRange]
    generalize settings.builtins[id] = shell at filled builtin
    cases filled with
    | builtin => rfl
    | _ => simp [Declaration.isUser] at builtin
  · rename_i outOfRange
    rw [List.getElem?_eq_none (Nat.le_of_not_lt outOfRange)]

/-- The registry is the graph of the schema: the builtin types, and behind them the declarations
that the sites of the schema describe, in document order. -/
structure IsGraph (settings : Settings) (schema : Schema) (registry : Registry) : Prop where
  names : registry.names = allNames settings schema
  distinct : registry.names.Nodup
  declarations : ∃ user, registry.declarations = settings.builtins ++ user ∧
    List.Forall₂ (Site.Describes registry settings.camelCaseKeys) (Site.declarations [] schema) user

/-- The result of a compile is the graph of the schema. -/
theorem isGraph_of_result (placed : WellPlaced schema) {moment : Instant} {registry : Registry}
    (success : (compile settings moment schema).result = .ok registry) :
    IsGraph settings schema registry := by
  have formed := wellFormed_of_result placed success
  have distinct := formed.distinct placed
  obtain ⟨_, contents, visited, rfl⟩ := result_eq_ok_iff.mp success
  rw [formed.ofSchema placed] at visited
  have same := Contents.bare_of_visitAll visited
  have names : contents.registry.names = allNames settings schema := by
    rw [← names_bare, same, names_bare, names_shellGraph]
  refine ⟨names, names ▸ distinct, contents.registry.declarations.drop settings.builtins.length,
    ?_, ?_⟩
  · have split := List.take_append_drop settings.builtins.length contents.registry.declarations
    rw [builtins_of_visitAll placed formed visited] at split
    exact split.symm
  · have length := congrArg List.length names
    rw [length_names, size, allNames, List.length_append, List.length_map,
      ← Settings.map_name_builtins, List.length_map] at length
    refine List.forall₂_iff_get.mpr ⟨by simp [length], fun index inRange _ => ?_⟩
    obtain ⟨declaration, atId, describes⟩ :=
      describes_of_visitAll placed formed visited (List.getElem_mem inRange)
    rw [idxOf_name_getElem distinct] at atId
    have same : (contents.registry.declarations.drop settings.builtins.length)[index]? =
        some declaration := by rw [List.getElem?_drop, atId]
    rw [List.get_eq_getElem, List.get_eq_getElem, (List.getElem?_eq_some_iff.mp same).2]
    exact describes

/-- What a site describes stands in the graph under the name of the site. -/
theorem IsGraph.describes {registry : Registry} (graph : IsGraph settings schema registry)
    {site : Site} (declared : site ∈ Site.declarations [] schema) :
    ∃ declaration, registry.declarations[registry.names.idxOf site.name]? = some declaration ∧
      site.Describes registry settings.camelCaseKeys declaration := by
  obtain ⟨user, split, described⟩ := graph.declarations
  obtain ⟨sameLength, describes⟩ := List.forall₂_iff_get.mp described
  obtain ⟨index, rfl⟩ := List.mem_iff_get.mp declared
  have inRange : index < user.length := sameLength ▸ index.isLt
  refine ⟨user[index.val], ?_, describes index index.isLt inRange⟩
  rw [graph.names, List.get_eq_getElem, idxOf_name_getElem (graph.names ▸ graph.distinct), split,
    List.getElem?_append_right (Nat.le_add_right _ _), Nat.add_sub_cancel_left,
    List.getElem?_eq_getElem inRange]

/-- The builtin types stand in the graph as they were registered. -/
theorem IsGraph.builtin {registry : Registry} (graph : IsGraph settings schema registry)
    {id : Nat} (inRange : id < settings.builtins.length) :
    registry.declarations[id]? = some settings.builtins[id] := by
  obtain ⟨user, split, _⟩ := graph.declarations
  rw [split, List.getElem?_append_left inRange, List.getElem?_eq_getElem inRange]

/-- A declaration of the graph is a builtin type or what a site describes. -/
theorem IsGraph.cases {registry : Registry} (graph : IsGraph settings schema registry) {id : Nat}
    {declaration : Declaration} (found : registry.declarations[id]? = some declaration) :
    id < settings.builtins.length ∨
      ∃ site ∈ Site.declarations [] schema, id = registry.names.idxOf site.name ∧
        site.Describes registry settings.camelCaseKeys declaration := by
  obtain ⟨user, split, described⟩ := graph.declarations
  obtain ⟨sameLength, describes⟩ := List.forall₂_iff_get.mp described
  by_cases builtin : id < settings.builtins.length
  · exact .inl builtin
  · have behind := Nat.le_of_not_lt builtin
    rw [split, List.getElem?_append_right behind] at found
    obtain ⟨inRange, isLast⟩ := List.getElem?_eq_some_iff.mp found
    have inSites : id - settings.builtins.length < (Site.declarations [] schema).length :=
      sameLength ▸ inRange
    refine .inr ⟨_, List.getElem_mem inSites, ?_, ?_⟩
    · rw [graph.names, idxOf_name_getElem (graph.names ▸ graph.distinct),
        Nat.add_sub_cancel' behind]
    · exact isLast ▸ describes _ inSites inRange

end

end SchemaGraph
