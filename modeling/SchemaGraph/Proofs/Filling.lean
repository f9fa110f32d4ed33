import Mathlib.Data.List.Forall2
import SchemaGraph.Proofs.PropertyNodes

/-!
# What the second pass fills in

The nodes that fill a declaration in are the members of its record or of its enumeration. After
any part of the second pass every declaration is its shell together with what the nodes that
were visited for it describe, whatever the shape of the schema.
-/

namespace SchemaGraph

open Node

/-- The position of the last property that is designated as the identity. -/
def lastDesignated? (designated : List Bool) : Option Nat :=
  (designated.zipIdx.filter Prod.fst).getLast?.map Prod.snd

/-- A designation overrides those in front of it, and a property without one leaves them alone. -/
theorem lastDesignated?_concat (designated : List Bool) (last : Bool) :
    lastDesignated? (designated ++ [last]) =
      if last then some designated.length else lastDesignated? designated := by
  cases last <;> simp [lastDesignated?, List.zipIdx_append]

/-- Only a property that is there can be designated. -/
theorem lastDesignated?_lt {designated : List Bool} {index : Nat}
    (last : lastDesignated? designated = some index) : index < designated.length := by
  obtain ⟨⟨flag, position⟩, found, rfl⟩ := Option.map_eq_some_iff.mp last
  have listed := (List.mem_filter.mp (List.mem_of_getLast? found)).1
  simpa using List.snd_lt_add_of_mem_zipIdx listed

namespace Registry

/-- A declaration is its shell with the contents that nodes describe, given what names denote. -/
inductive Filled (registry : Registry) (named : String → SchemaType → Prop) (camelCaseKeys : Bool)
    (id : TypeId) (nodes : List Node) : Declaration → Declaration → Prop
  | builtin {declaration : Declaration} (builtin : declaration.isUser = false) :
      Filled registry named camelCaseKeys id nodes declaration declaration
  | record {shell : RecordType} {readings : List (Property × Bool)} {comment : Option String}
      (described : List.Forall₂ (registry.Describes named camelCaseKeys id)
        (nodes.filter (·.kind == .property)) readings) (commented : LastComment nodes comment) :
      Filled registry named camelCaseKeys id nodes (.record shell)
        (.record { shell with
          comment
          properties := readings.map Prod.fst
          identity := lastDesignated? (readings.map Prod.snd) })
  | enumeration {shell : EnumType} {comment : Option String}
      (commented : LastComment nodes comment) :
      Filled registry named camelCaseKeys id nodes (.enumeration shell)
        (.enumeration { shell with
          comment
          values := (nodes.filter (·.kind != .comment)).map Node.text })

section Filled

variable {registry : Registry} {named : String → SchemaType → Prop} {camelCaseKeys : Bool}
  {id : TypeId} {nodes : List Node} {shell declaration : Declaration}

/-- To fill in a shell does not change its kind. -/
theorem Filled.kind (filled : registry.Filled named camelCaseKeys id nodes shell declaration) :
    declaration.kind = shell.kind := by
  cases filled <;> rfl

/-- Filling in changes the contents of a shell and nothing else. -/
theorem Filled.bare (filled : registry.Filled named camelCaseKeys id nodes shell declaration) :
    declaration.bare = shell.bare := by
  cases filled <;> rfl

/-- A shell is filled with nothing. -/
theorem filled_nil (bare : shell.bare = shell) :
    registry.Filled named camelCaseKeys id [] shell shell := by
  cases shell with
  | record type =>
    have filled : registry.Filled named camelCaseKeys id [] (.record type) _ :=
      .record .nil (.absent (by simp))
    change registry.Filled named camelCaseKeys id [] _ (Declaration.record type).bare at filled
    rwa [bare] at filled
  | enumeration type =>
    have filled : registry.Filled named camelCaseKeys id [] (.enumeration type) _ :=
      .enumeration (.absent (by simp))
    change registry.Filled named camelCaseKeys id [] _ (Declaration.enumeration type).bare at filled
    rwa [bare] at filled
  | _ => exact .builtin rfl

/-- A comment replaces the comment of a record. -/
theorem Filled.setComment
    (filled : registry.Filled named camelCaseKeys id nodes shell declaration)
    {node : Node} (kind : node.kind = .comment) (record : shell.kind = .record) :
    registry.Filled named camelCaseKeys id (nodes ++ [node]) shell
      (declaration.onRecord (.setComment node.commentText)) := by
  cases filled with
  | record described =>
    exact .record (by simpa [kind] using described) (lastComment_concat kind nodes)
  | builtin builtin => cases shell <;> simp_all [Declaration.isUser, Declaration.kind]
  | enumeration => simp [Declaration.kind] at record

/-- A property is appended to a record, and is its identity if it is designated. -/
theorem Filled.gain
    (filled : registry.Filled named camelCaseKeys id nodes shell declaration)
    {node : Node} (kind : node.kind = .property) (record : shell.kind = .record)
    {property : Property} {identity : Bool}
    (described : registry.Describes named camelCaseKeys id node (property, identity)) :
    registry.Filled named camelCaseKeys id (nodes ++ [node]) shell
      (declaration.onRecord (.gain property identity)) := by
  cases filled with
  | @record type readings comment earlier commented =>
    have next : registry.Filled named camelCaseKeys id (nodes ++ [node]) (.record type) _ :=
      .record (show List.Forall₂ _ _ (readings ++ [(property, identity)]) by
        simpa [kind] using List.rel_append earlier (.cons described .nil))
        (commented.concat (by simp [kind]))
    rw [List.map_append, List.map_append, List.map_singleton, List.map_singleton,
      lastDesignated?_concat] at next
    simpa [Declaration.onRecord, RecordType.gain] using next
  | builtin builtin => cases shell <;> simp_all [Declaration.isUser, Declaration.kind]
  | enumeration => simp [Declaration.kind] at record

/-- Other nodes say nothing of a record. -/
theorem Filled.pass
    (filled : registry.Filled named camelCaseKeys id nodes shell declaration)
    {node : Node} (notProperty : node.kind ≠ .property) (notComment : node.kind ≠ .comment)
    (record : shell.kind = .record) :
    registry.Filled named camelCaseKeys id (nodes ++ [node]) shell declaration := by
  cases filled with
  | record described commented =>
    exact .record (by simpa [notProperty] using described) (commented.concat notComment)
  | builtin builtin => cases shell <;> simp_all [Declaration.isUser, Declaration.kind]
  | enumeration => simp [Declaration.kind] at record

/-- A member of an enumeration is its comment or one more value. -/
theorem Filled.member
    (filled : registry.Filled named camelCaseKeys id nodes shell declaration)
    (enumeration : shell.kind = .enumeration) (node : Node) :
    registry.Filled named camelCaseKeys id (nodes ++ [node]) shell
      (declaration.onEnumeration
        (if node.kind = .comment then .setComment node.commentText else .addValue node.text)) := by
  cases filled with
  | @enumeration type _ commented =>
    by_cases kind : node.kind = .comment
    · have next : registry.Filled named camelCaseKeys id (nodes ++ [node]) (.enumeration type) _ :=
        .enumeration (lastComment_concat kind nodes)
      rw [if_pos kind]
      simpa [Declaration.onEnumeration, EnumType.setComment, kind] using next
    · have next : registry.Filled named camelCaseKeys id (nodes ++ [node]) (.enumeration type) _ :=
        .enumeration (commented.concat kind)
      rw [if_neg kind]
      simpa [Declaration.onEnumeration, EnumType.addValue, kind] using next
  | builtin builtin => cases shell <;> simp_all [Declaration.isUser, Declaration.kind]
  | record => simp [Declaration.kind] at enumeration

/-- The members of an enumeration fill it in one after the other. -/
theorem Filled.members
    (filled : registry.Filled named camelCaseKeys id nodes shell declaration)
    (enumeration : shell.kind = .enumeration) (members : List Node) :
    registry.Filled named camelCaseKeys id (nodes ++ members) shell
      (members.foldl (fun current member => current.onEnumeration
        (if member.kind = .comment then .setComment member.commentText
          else .addValue member.text)) declaration) := by
  induction members generalizing nodes declaration with
  | nil => rwa [List.append_nil]
  | cons member rest ih =>
    have next := ih (filled.member enumeration member)
    rwa [List.append_assoc] at next

end Filled

/-- The members of an enumeration change its own declaration, one after the other, and no other one.
-/
theorem getElem?_fillValues (registry : Registry) (id other : TypeId) (members : List Node) :
    (registry.fillValues id members).declarations[other]? =
      registry.declarations[other]?.map fun declaration =>
        if id = other then
          members.foldl (fun current member => current.onEnumeration
            (if member.kind = .comment then .setComment member.commentText
              else .addValue member.text)) declaration
        else declaration := by
  induction members generalizing registry with
  | nil => simp [fillValues]
  | cons member rest ih =>
    rw [fillValues, ih, onEnumeration, List.getElem?_modify]
    by_cases here : id = other
    · cases registry.declarations[other]? <;> simp [here]
    · cases registry.declarations[other]? <;> simp [here]

/-- What a name denotes is read off the shells. -/
theorem typeNamed_of_bare {registry registry' : Registry} (same : registry'.bare = registry.bare)
    (scope : Option TypeId) (name : String) :
    registry'.typeNamed scope name = registry.typeNamed scope name := by
  rw [← typeNamed_bare, same, typeNamed_bare]

end Registry

/-- The nodes at a site that fill in the declaration of a qualified name: the node itself if it
is a member of this record, and its own members if it is this enumeration. -/
def Site.nodesFor (name : String) (site : Site) : List Node :=
  (if Name.ofPath? site.path = some name then [site.node] else []) ++
    if site.node.kind = .enumeration ∧ site.name = name then site.node.members else []

/-- A node that is no enumeration contributes to the record around it only. -/
theorem Site.nodesFor_of_ne_enumeration {site : Site} (kind : site.node.kind ≠ .enumeration)
    (name : String) :
    site.nodesFor name = if Name.ofPath? site.path = some name then [site.node] else [] := by
  have values : ¬ (site.node.kind = .enumeration ∧ site.name = name) := fun both => kind both.1
  rw [Site.nodesFor, if_neg values, List.append_nil]

namespace Contents

open Registry

section Visited

variable {shells : Registry} {camelCaseKeys : Bool} {site : Site} {contents done : Contents}

/-- In a registry of distinct names the id that is found under a name is that of the declaration
of the name. -/
private theorem find?_eq_some_iff (distinct : shells.names.Nodup) {id : TypeId}
    {shell : Declaration} (isShell : shells.declarations[id]? = some shell) (name : String) :
    shells.find? name = some id ↔ name = shell.name := by
  constructor
  · intro found
    obtain ⟨declaration, atId, named⟩ := name_of_find? found
    rw [isShell, Option.some.injEq] at atId
    rw [atId, named]
  · rintro rfl
    exact find?_of_getElem? distinct isShell

/-- A path leads to the scope of a shell exactly if it spells the name of the shell. -/
private theorem scopeOf_eq_some_iff (distinct : shells.names.Nodup) {id : TypeId}
    {shell : Declaration} (isShell : shells.declarations[id]? = some shell) (path : List String) :
    shells.scopeOf path = some id ↔ Name.ofPath? path = some shell.name := by
  rw [scopeOf, Option.bind_eq_some_iff]
  constructor
  · rintro ⟨name, named, found⟩
    rw [named, (find?_eq_some_iff distinct isShell name).mp found]
  · intro named
    exact ⟨shell.name, named, find?_of_getElem? distinct isShell⟩

section Declared

variable {named : String → SchemaType → Prop} {id : TypeId} {nodes : List Node}
  {shell declaration : Declaration}

/-- Only a record is a scope. -/
private theorem kind_of_scopeOf (knows : shells.Knows site.path)
    (isShell : shells.declarations[id]? = some shell)
    (scope : shells.scopeOf site.path = some id) : shell.kind = .record := by
  obtain ⟨record, found⟩ := knows.hasRecord scope
  rw [isShell, Option.some.injEq] at found
  rw [found]
  rfl

/-- A member of a record that is neither a property nor a comment changes nothing. -/
private theorem filled_passing (distinct : shells.names.Nodup)
    (isShell : shells.declarations[id]? = some shell) (knows : shells.Knows site.path)
    (filled : shells.Filled named camelCaseKeys id nodes shell declaration)
    (passing : shells.scopeOf site.path = some id →
      site.node.kind ≠ .property ∧ site.node.kind ≠ .comment) :
    shells.Filled named camelCaseKeys id
      (nodes ++ if Name.ofPath? site.path = some shell.name then [site.node] else [])
      shell declaration := by
  by_cases within : Name.ofPath? site.path = some shell.name
  · rw [if_pos within]
    have scope := (scopeOf_eq_some_iff distinct isShell site.path).mpr within
    obtain ⟨notProperty, notComment⟩ := passing scope
    exact filled.pass notProperty notComment (kind_of_scopeOf knows isShell scope)
  · rwa [if_neg within, List.append_nil]

/-- A member of a record that changes it is meant for this record and for nothing else. -/
private theorem filled_onRecord (distinct : shells.names.Nodup)
    (isShell : shells.declarations[id]? = some shell) (knows : shells.Knows site.path)
    (filled : shells.Filled named camelCaseKeys id nodes shell declaration) {owner : TypeId}
    (scope : shells.scopeOf site.path = some owner) {change : RecordType → RecordType}
    (changed : owner = id → shell.kind = .record → shells.Filled named camelCaseKeys id
      (nodes ++ [site.node]) shell (declaration.onRecord change)) :
    shells.Filled named camelCaseKeys id
      (nodes ++ if Name.ofPath? site.path = some shell.name then [site.node] else [])
      shell (if owner = id then declaration.onRecord change else declaration) := by
  have scopeIff := scopeOf_eq_some_iff distinct isShell site.path
  by_cases here : owner = id
  · rw [here] at scope
    rw [if_pos here, if_pos (scopeIff.mp scope)]
    exact changed here (kind_of_scopeOf knows isShell scope)
  · have apart : Name.ofPath? site.path ≠ some shell.name := by
      intro within
      exact here (Option.some.inj (scope.symm.trans (scopeIff.mpr within)))
    rwa [if_neg here, if_neg apart, List.append_nil]

/-- The members of an enumeration are meant for this enumeration and for nothing else. -/
private theorem filled_values (distinct : shells.names.Nodup)
    (isShell : shells.declarations[id]? = some shell) (knows : shells.Knows site.path)
    (filled : shells.Filled named camelCaseKeys id nodes shell declaration)
    (kind : site.node.kind = .enumeration) {other : TypeId}
    (found : shells.find? site.name = some other)
    (enumeration : other = id → shell.kind = .enumeration) :
    shells.Filled named camelCaseKeys id (nodes ++ site.nodesFor shell.name) shell
      (if other = id then
        site.node.members.foldl (fun current member => current.onEnumeration
          (if member.kind = .comment then .setComment member.commentText
            else .addValue member.text)) declaration
      else declaration) := by
  have nameIff := find?_eq_some_iff distinct isShell site.name
  rw [Site.nodesFor]
  by_cases here : other = id
  · rw [here] at found
    have outside : Name.ofPath? site.path ≠ some shell.name := by
      intro within
      have scope := (scopeOf_eq_some_iff distinct isShell site.path).mpr within
      have record := kind_of_scopeOf knows isShell scope
      simp [enumeration here] at record
    rw [if_pos here, if_neg outside, if_pos ⟨kind, nameIff.mp found⟩, List.nil_append]
    exact filled.members (enumeration here) _
  · have apart : ¬ (site.node.kind = .enumeration ∧ site.name = shell.name) := by
      rintro ⟨_, named⟩
      exact here (Option.some.inj (found.symm.trans (nameIff.mpr named)))
    rw [if_neg here, if_neg apart, List.append_nil]
    exact filled_passing distinct isShell knows filled fun _ => by simp [kind]

end Declared

/-- A visit fills every declaration in with the nodes at the site that are meant for it. -/
private theorem Visited.filled (distinct : shells.names.Nodup)
    (same : contents.registry.bare = shells.bare) (knows : shells.Knows site.path)
    (visited : Visited camelCaseKeys site contents done) {id : TypeId} {nodes : List Node}
    {shell declaration : Declaration} (isShell : shells.declarations[id]? = some shell)
    (atId : contents.registry.declarations[id]? = some declaration)
    (filled : shells.Filled
      (fun reference type => shells.typeNamed (some id) reference = .ok type) camelCaseKeys id
      nodes shell declaration) :
    ∃ filledIn, done.registry.declarations[id]? = some filledIn ∧
      shells.Filled (fun reference type => shells.typeNamed (some id) reference = .ok type)
        camelCaseKeys id (nodes ++ site.nodesFor shell.name) shell filledIn := by
  have sameScope := scopeOf_of_bare same site.path
  cases visited with
  | record kind =>
    refine ⟨declaration, atId, ?_⟩
    rw [Site.nodesFor_of_ne_enumeration (by simp [kind])]
    exact filled_passing distinct isShell knows filled fun _ => by simp [kind]
  | silent silent outside =>
    refine ⟨declaration, atId, ?_⟩
    rw [Site.nodesFor_of_ne_enumeration fun kind => by simp [Node.declares, kind] at silent]
    refine filled_passing distinct isShell knows filled fun scope => not_or.mp fun kind => ?_
    rw [← sameScope, outside kind] at scope
    simp at scope
  | comment kind scope =>
    rw [sameScope] at scope
    rw [Site.nodesFor_of_ne_enumeration (by simp [kind]), withRegistry, getElem?_onRecord, atId,
      Option.map_some]
    refine ⟨_, rfl, filled_onRecord distinct isShell knows filled scope fun _ record => ?_⟩
    exact filled.setComment kind record
  | @property owner name behind property identity kind scope children read =>
    rw [sameScope] at scope
    rw [Site.nodesFor_of_ne_enumeration (by simp [kind]), withRegistry, getElem?_onRecord, atId,
      Option.map_some]
    refine ⟨_, rfl, filled_onRecord distinct isShell knows filled scope fun here record => ?_⟩
    subst here
    refine filled.gain kind record (Describes.mono ?_ same.symm
      (exists_readProperty_iff.mp ⟨name, behind, children, read⟩))
    intro reference type named
    rw [← named, typeNamed_of_bare same]
  | @enumeration other type kind _ found shell' _ =>
    rw [find?_of_bare same] at found
    rw [getElem?_fillValues, atId, Option.map_some]
    refine ⟨_, rfl, filled_values distinct isShell knows filled kind found fun here => ?_⟩
    obtain ⟨_, found', bare⟩ := exists_getElem?_of_bare same.symm shell'
    rw [here, isShell, Option.some.injEq] at found'
    rw [found', ← Declaration.kind_bare, bare]
    rfl

end Visited

/-- After any sites have been visited, every declaration is its shell filled in with the nodes
at these sites that are meant for it. -/
theorem filled_of_visitAll {shells : Registry} (distinct : shells.names.Nodup)
    (bare : shells.bare = shells) {camelCaseKeys : Bool} {sites : List Site}
    (known : ∀ site ∈ sites, shells.Knows site.path) {done : Contents}
    (success : visitAll camelCaseKeys sites ⟨shells, []⟩ = .ok done) {id : TypeId}
    {shell : Declaration} (isShell : shells.declarations[id]? = some shell) :
    ∃ filledIn, done.registry.declarations[id]? = some filledIn ∧
      shells.Filled (fun reference type => shells.typeNamed (some id) reference = .ok type)
        camelCaseKeys id (sites.flatMap (Site.nodesFor shell.name)) shell filledIn := by
  induction sites using List.reverseRecOn generalizing done with
  | nil =>
    obtain rfl := Except.ok.inj success
    have atId := getElem?_bare shells id
    rw [bare, isShell, Option.map_some, Option.some.injEq] at atId
    exact ⟨shell, isShell, filled_nil atId.symm⟩
  | append_singleton front site ih =>
    rw [visitAll_append] at success
    split at success
    · rename_i middle first
      rw [visitAll_singleton] at success
      obtain ⟨declaration, atId, filled⟩ :=
        ih (fun other listed => known other (List.mem_append_left _ listed)) first
      have same := bare_of_visitAll first
      have knows := known site (List.mem_append_right _ List.mem_cons_self)
      have visited := (visit_eq_ok_iff (knows.of_bare same)).mp success
      rw [List.flatMap_append, List.flatMap_singleton]
      exact visited.filled distinct same knows isShell atId filled
    · simp at success

end Contents

end SchemaGraph
