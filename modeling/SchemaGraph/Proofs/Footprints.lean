import SchemaGraph.Proofs.KnownIds
import SchemaGraph.Proofs.Lockstep

/-!
# No other ids are looked up

The ids that a compile looks up are listed beside the functions that do it, and here the lists
are shown to leave nothing out. Two registries are compared that have the same names in the same
places but may differ in the declarations of some ids. A function whose listed ids are not among
them answers alike on both, so it cannot have looked up any other id. What it changes it changes
alike, and both passes go on in step to the same end.
-/

namespace SchemaGraph

open Node Registry

namespace Registry

/-- The registries have the same names in the same places, and the same declarations of all ids
that may be seen. -/
structure AgreeAt (seen : TypeId → Prop) (registry registry' : Registry) : Prop where
  names : registry'.names = registry.names
  declared : ∀ id, seen id → registry'.declarations[id]? = registry.declarations[id]?

section Readings

variable {seen : TypeId → Prop} {registry registry' : Registry}

/-- A name is found without a look at any id. -/
theorem AgreeAt.find?_eq (agree : AgreeAt seen registry registry') (name : String) :
    registry'.find? name = registry.find? name := by
  rw [Registry.find?_eq, Registry.find?_eq, agree.names]

/-- No id is looked up to count the declarations. -/
theorem AgreeAt.size_eq (agree : AgreeAt seen registry registry') :
    registry'.size = registry.size := by
  rw [← length_names, agree.names, length_names]

/-- What is looked up under an id is its declaration. -/
theorem AgreeAt.get_eq (agree : AgreeAt seen registry registry') {id : TypeId} (sees : seen id) :
    registry'.get id = registry.get id := by
  rw [get, get, agree.declared id sees]

/-- To name a scope is to look it up. -/
theorem AgreeAt.scopeName_eq (agree : AgreeAt seen registry registry') {scope : Option TypeId}
    (sees : ∀ id ∈ scope.toList, seen id) :
    registry'.scopeName scope = registry.scopeName scope := by
  cases scope with
  | none => rfl
  | some id => rw [scopeName, scopeName, nameOf, nameOf, agree.get_eq (sees id (by simp))]

/-- To qualify a name inside a scope is to look the scope up. -/
theorem AgreeAt.qualify_eq (agree : AgreeAt seen registry registry') {scope : Option TypeId}
    (sees : ∀ id ∈ scope.toList, seen id) (localName : String) :
    registry'.qualify scope localName = registry.qualify scope localName := by
  rw [qualify, qualify, agree.scopeName_eq sees]

/-- An id is a record in both registries or in neither, if it may be seen. -/
theorem AgreeAt.hasRecord_iff (agree : AgreeAt seen registry registry') {id : TypeId}
    (sees : seen id) : registry'.HasRecord id ↔ registry.HasRecord id := by
  rw [HasRecord, HasRecord, agree.declared id sees]

/-- The way outward begins with the declaration itself. -/
theorem mem_idsOutward (registry : Registry) (depth : Nat) (start : TypeId) :
    start ∈ registry.idsOutward depth start := by
  cases depth <;> exact List.mem_cons_self

/-- The names of a declaration and of those around it are read off the listed ids. -/
theorem AgreeAt.namesOutward_eq (agree : AgreeAt seen registry registry') (depth : Nat)
    {start : TypeId} (sees : ∀ id ∈ registry.idsOutward depth start, seen id) :
    registry'.namesOutward depth start = registry.namesOutward depth start := by
  induction depth generalizing start with
  | zero => rfl
  | succ depth ih =>
    rw [namesOutward, namesOutward, agree.declared start (sees start (mem_idsOutward ..))]
    cases found : registry.declarations[start]? with
    | none => rfl
    | some declaration =>
      cases nested : declaration.parent with
      | none => simp only [nested]
      | some parent =>
        have outward : registry.idsOutward (depth + 1) start =
            start :: registry.idsOutward depth parent := by
          rw [idsOutward, found, Option.bind_some, nested]
        have around := ih fun id listed => sees id (outward ▸ List.mem_cons_of_mem _ listed)
        simp only [nested, around]

/-- A reference is resolved with the listed ids. -/
theorem AgreeAt.resolve_eq (agree : AgreeAt seen registry registry') {owner : TypeId}
    {reference : String} (sees : ∀ id ∈ registry.idsNaming owner reference, seen id) :
    registry'.resolve (some owner) reference = registry.resolve (some owner) reference := by
  have outward : ∀ id ∈ registry.idsOutward registry.size owner, seen id :=
    fun id listed => sees id (List.mem_append_left _ listed)
  have atOwner : ∀ id ∈ (some owner).toList, seen id := by
    simpa using outward owner (mem_idsOutward ..)
  have found : registry'.find? = registry.find? := funext agree.find?_eq
  rw [resolve, resolve, candidates, candidates, agree.scopeName_eq atOwner, agree.size_eq,
    agree.namesOutward_eq _ outward, found]

/-- The type of what a reference is resolved to is read off one id more. -/
theorem AgreeAt.typeNamed_eq (agree : AgreeAt seen registry registry') {owner : TypeId}
    {reference : String} (sees : ∀ id ∈ registry.idsNaming owner reference, seen id) :
    registry'.typeNamed (some owner) reference = registry.typeNamed (some owner) reference := by
  rw [typeNamed, typeNamed, agree.resolve_eq sees]
  cases resolved : registry.resolve (some owner) reference with
  | error error => rfl
  | ok id =>
    have found : seen id := by
      refine sees id (List.mem_append_right _ ?_)
      rw [resolved]
      exact List.mem_singleton_self id
    simp only [typeOf, agree.get_eq found]

/-- What a type expression is resolved to depends on what the texts in it denote only. -/
theorem resolveType_congr {scope : Option TypeId} {tokens : List Node}
    (same : ∀ node ∈ tokens,
      registry'.typeNamed scope node.text = registry.typeNamed scope node.text) :
    registry'.resolveType scope tokens = registry.resolveType scope tokens := by
  induction tokens using reading_induction registry scope with
  | nil => rw [resolveType_nil, resolveType_nil]
  | cons marker tokens ih middleIh =>
    have first := ih fun node listed => same node (List.mem_cons_of_mem _ listed)
    by_cases isName : marker.kind = .typePrimitive
    · rw [resolveType_primitive registry' scope isName, resolveType_primitive registry scope isName]
      cases tokens with
      | nil => rfl
      | cons name rest => simp only [same name (by simp)]
    by_cases isList : marker.kind = .typeList
    · rw [resolveType_list registry' scope isList, resolveType_list registry scope isList, first]
    by_cases isSet : marker.kind = .typeSet
    · rw [resolveType_set registry' scope isSet, resolveType_set registry scope isSet, first]
    by_cases isMap : marker.kind = .typeMap
    · rw [resolveType_map registry' scope isMap, resolveType_map registry scope isMap, first]
      cases keyed : registry.resolveType scope tokens with
      | error error => rfl
      | ok result =>
        obtain ⟨key, middle⟩ := result
        -- The key is spelled at the front, so the value behind it is part of the expression.
        obtain ⟨_, front, rfl, _, _⟩ := resolveType_eq_ok_iff_spells.mp keyed
        have second := middleIh key middle keyed fun node listed =>
          same node (List.mem_cons_of_mem _ (List.mem_append_right _ listed))
        simp only [second]
    · rw [resolveType_other registry' scope isName isList isSet isMap,
        resolveType_other registry scope isName isList isSet isMap]

/-- The representation of a type is read off the id of an enumeration, and off no id otherwise. -/
theorem AgreeAt.kindFor_eq (agree : AgreeAt seen registry registry') {type : SchemaType}
    (sees : ∀ id, type = .enumeration id → seen id) :
    registry'.kindFor type = registry.kindFor type := by
  cases type with
  | enumeration id => rw [kindFor, kindFor, nameOf, nameOf, agree.get_eq (sees id rfl)]
  | _ => rfl

/-- A property is read with the listed ids. -/
theorem AgreeAt.readProperty_eq (agree : AgreeAt seen registry registry') {owner : TypeId}
    {nodes : List Node} (sees : ∀ id ∈ registry.idsReading owner nodes, seen id)
    (camelCaseKeys : Bool) (name : String) :
    registry'.readProperty camelCaseKeys owner name nodes =
      registry.readProperty camelCaseKeys owner name nodes := by
  have types : registry'.resolveType (some owner) nodes =
      registry.resolveType (some owner) nodes := by
    refine resolveType_congr fun node listed => agree.typeNamed_eq fun id naming => ?_
    exact sees id (List.mem_append_left _ (List.mem_flatMap.mpr ⟨node, listed, naming⟩))
  rw [readProperty, readProperty, types]
  cases resolved : registry.resolveType (some owner) nodes with
  | error error => rfl
  | ok result =>
    obtain ⟨type, rest⟩ := result
    have kinds : registry'.kindFor type = registry.kindFor type := by
      refine agree.kindFor_eq fun id same => sees id (List.mem_append_right _ ?_)
      rw [resolved, same]
      exact List.mem_singleton_self id
    simp only [makeProperty, kinds]

/-- A fault in a property is worded with a look at the owner. -/
theorem AgreeAt.inProperty_eq (agree : AgreeAt seen registry registry') {owner : TypeId}
    (sees : seen owner) (property : String) (error : CompileError) :
    registry'.inProperty owner property error = registry.inProperty owner property error := by
  rw [inProperty, inProperty, nameOf, nameOf, agree.get_eq sees]

end Readings

section Changes

variable {seen : TypeId → Prop} {registry registry' : Registry}

/-- The same change of a record, whichever it is, keeps the registries in agreement. -/
theorem AgreeAt.onRecord (agree : AgreeAt seen registry registry') (id : TypeId)
    {change : RecordType → RecordType} (keeps : ∀ record, (change record).name = record.name) :
    AgreeAt seen (registry.onRecord id change) (registry'.onRecord id change) := by
  constructor
  · rw [Registry.names, Registry.names, map_onRecord _ _ _ Declaration.name keeps,
      map_onRecord _ _ _ Declaration.name keeps]
    exact agree.names
  · intro other sees
    rw [getElem?_onRecord, getElem?_onRecord, agree.declared other sees]

/-- The same change of an enumeration, whichever it is, keeps the registries in agreement. -/
theorem AgreeAt.onEnumeration (agree : AgreeAt seen registry registry') (id : TypeId)
    {change : EnumType → EnumType} (keeps : ∀ type, (change type).name = type.name) :
    AgreeAt seen (registry.onEnumeration id change) (registry'.onEnumeration id change) := by
  constructor
  · rw [Registry.names, Registry.names, map_onEnumeration _ _ _ Declaration.name keeps,
      map_onEnumeration _ _ _ Declaration.name keeps]
    exact agree.names
  · intro other sees
    rw [Registry.onEnumeration, Registry.onEnumeration, List.getElem?_modify, List.getElem?_modify,
      agree.declared other sees]

/-- A declaration is appended in both registries alike. -/
theorem AgreeAt.append (agree : AgreeAt seen registry registry') (declaration : Declaration) :
    AgreeAt seen (registry.append [declaration]) (registry'.append [declaration]) := by
  have lengths : registry'.declarations.length = registry.declarations.length := agree.size_eq
  constructor
  · rw [names_append, names_append, agree.names]
  · intro other sees
    rw [Registry.append, Registry.append, List.getElem?_append, List.getElem?_append, lengths,
      agree.declared other sees]

/-- A declaration is registered with a look at its parent. -/
theorem AgreeAt.register (agree : AgreeAt seen registry registry') (declaration : Declaration)
    (sees : ∀ id ∈ declaration.parent.toList, seen id) :
    Agree (fun (id, grown) (id', grown') => id' = id ∧ AgreeAt seen grown grown')
      (registry.register declaration) (registry'.register declaration) := by
  rw [Registry.register, Registry.register, agree.find?_eq]
  split
  · exact .error _
  · cases nested : declaration.parent with
    | none => exact .ok ⟨agree.size_eq, agree.append declaration⟩
    | some parent =>
      have around : seen parent := sees parent (by simp [nested])
      simp only [agree.get_eq around, agree.size_eq]
      cases registry.get parent with
      | error error => exact .error error
      | ok outer =>
        cases outer with
        | record =>
          have adopted : AgreeAt seen
              (registry.onRecord parent (RecordType.addChild registry.size))
              (registry'.onRecord parent (RecordType.addChild registry.size)) :=
            agree.onRecord parent fun _ => rfl
          exact .ok ⟨rfl, adopted.append declaration⟩
        | _ => exact .error _

/-- The values of an enumeration are added without a look at any other id. -/
theorem AgreeAt.fillValues (agree : AgreeAt seen registry registry') (id : TypeId)
    (members : List Node) :
    AgreeAt seen (registry.fillValues id members) (registry'.fillValues id members) := by
  induction members generalizing registry registry' with
  | nil => exact agree
  | cons member rest ih =>
    refine ih (agree.onEnumeration id fun type => ?_)
    split <;> rfl

/-- A property is added, or refused, with the listed ids. -/
theorem AgreeAt.fillProperty (agree : AgreeAt seen registry registry') {owner : TypeId}
    {node : Node} (sees : ∀ id ∈ registry.idsFilling owner node, seen id) (camelCaseKeys : Bool) :
    (∃ grown grown', AgreeAt seen grown grown' ∧
        (Change.fillProperty camelCaseKeys owner node).run registry = .ok () grown ∧
        (Change.fillProperty camelCaseKeys owner node).run registry' = .ok () grown') ∨
      ∃ error,
        (Change.fillProperty camelCaseKeys owner node).run registry = .error error registry ∧
        (Change.fillProperty camelCaseKeys owner node).run registry' = .error error registry' := by
  have atOwner : seen owner := sees owner List.mem_cons_self
  cases children : node.children with
  | nil =>
    exact .inr ⟨_, Change.run_fillProperty_of_unnamed children,
      Change.run_fillProperty_of_unnamed children⟩
  | cons name nodes =>
    have reading : ∀ id ∈ registry.idsReading owner nodes, seen id := by
      intro id listed
      refine sees id (List.mem_cons_of_mem _ ?_)
      rwa [children]
    have same := agree.readProperty_eq reading camelCaseKeys name.text
    cases read : registry.readProperty camelCaseKeys owner name.text nodes with
    | error error =>
      refine .inr ⟨_, Change.run_fillProperty_of_unread children read, ?_⟩
      rw [← agree.inProperty_eq atOwner]
      exact Change.run_fillProperty_of_unread children (same.trans read)
    | ok result =>
      obtain ⟨property, identity⟩ := result
      by_cases record : registry.HasRecord owner
      · refine .inl ⟨_, _, ?_, Change.run_fillProperty_of_record children read record,
          Change.run_fillProperty_of_record children (same.trans read)
            ((agree.hasRecord_iff atOwner).mpr record)⟩
        exact agree.onRecord owner fun _ => rfl
      · refine .inr ⟨_, Change.run_fillProperty_of_other children read record, ?_⟩
        rw [← agree.inProperty_eq atOwner]
        exact Change.run_fillProperty_of_other children (same.trans read)
          (mt (agree.hasRecord_iff atOwner).mp record)

end Changes

end Registry

namespace Shells

variable {seen : TypeId → Prop}

/-- The first passes have reached registries that agree, and have skipped the same. -/
structure AgreeAt (seen : TypeId → Prop) (shells shells' : Shells) : Prop where
  registry : Registry.AgreeAt seen shells.registry shells'.registry
  skips : shells'.skips = shells.skips

/-- A declaration is skipped with a look at what it stands in. -/
theorem AgreeAt.skip {shells shells' : Shells} (agree : shells.AgreeAt seen shells')
    {parent : Option TypeId} (sees : ∀ id ∈ parent.toList, seen id) (error : CompileError) :
    (shells.skip parent error).AgreeAt seen (shells'.skip parent error) := by
  rw [Shells.skip, Shells.skip, agree.registry.scopeName_eq sees]
  cases shells.registry.scopeName parent with
  | error unknown => exact ⟨agree.registry, by simp [agree.skips]⟩
  | ok scope => exact ⟨agree.registry, by simp [agree.skips]⟩

/-- The declaration of a node is registered, or refused, with a look at what it stands in. -/
theorem registerNode_agreeAt {registry registry' : Registry}
    (agree : Registry.AgreeAt seen registry registry') {parent : Option TypeId}
    (sees : ∀ id ∈ parent.toList, seen id) (node : Node) :
    Agree (Option.Rel fun (id, grown) (id', grown') =>
        id' = id ∧ Registry.AgreeAt seen grown grown')
      (registerNode registry parent node) (registerNode registry' parent node) := by
  rw [registerNode, registerNode]
  cases node.children with
  | nil => exact .ok .none
  | cons name members =>
    by_cases declares : node.kind = .record ∨ node.kind = .enumeration
    · simp only [registerNamed_of_declares declares, agree.qualify_eq sees]
      cases declarationName name with
      | error error => exact .error error
      | ok text =>
        dsimp only
        cases registry.qualify parent text with
        | error error => exact .error _
        | ok qualified =>
          have registered := agree.register (emptyShell node.kind qualified parent)
            (by rwa [emptyShell_parent])
          dsimp only
          generalize registry.register _ = result, registry'.register _ = result' at registered
          cases registered with
          | error error => exact .error _
          | ok given => exact .ok (Option.Rel.some given)
    · have silent : node.kind ≠ .record ∧ node.kind ≠ .enumeration := by simpa using declares
      simp only [registerNamed_of_silent silent]
      exact .ok .none

/-- The first pass looks up no other ids than those listed: it does the same with registries that
agree at them. -/
theorem declareAll_agreeAt (nodes : List Node) {parent : Option TypeId} {shells shells' : Shells}
    (agree : shells.AgreeAt seen shells')
    (sees : ∀ lookup ∈ lookupsAll parent nodes shells, seen lookup.id) :
    (declareAll parent nodes shells).AgreeAt seen (declareAll parent nodes shells') := by
  induction nodes using forest_induction generalizing parent shells shells' with
  | nil => exact agree
  | cons node rest children _ ih =>
    rw [lookupsAll, lookups_eq] at sees
    obtain ⟨here, behind⟩ := List.forall_mem_append.mp sees
    refine ih ?_ behind
    rw [declare_eq, declare_eq]
    by_cases empty : node.children = []
    · rw [registerNode, registerNode, empty]
      exact agree
    rw [if_neg empty] at here
    obtain ⟨around, inside⟩ := List.forall_mem_append.mp here
    rw [forall_mem_lookUp] at around
    have registered := registerNode_agreeAt agree.registry around node
    generalize registerNode shells.registry parent node = result,
      registerNode shells'.registry parent node = result' at registered inside
    cases registered with
    | error error => exact agree.skip around error
    | ok given =>
      cases given with
      | none => exact children agree inside
      | @some given given' same =>
        obtain ⟨_, registry⟩ := given
        obtain ⟨id, registry'⟩ := given'
        obtain ⟨rfl, like⟩ := same
        exact children ⟨like, agree.skips⟩ fun lookup listed =>
          inside lookup (List.mem_cons_of_mem _ listed)

end Shells

namespace Contents

variable {seen : TypeId → Prop} {camelCaseKeys : Bool} {contents contents' : Contents}

/-- The second passes have reached registries that agree, and have met the same shells. -/
structure AgreeAt (seen : TypeId → Prop) (contents contents' : Contents) : Prop where
  registry : Registry.AgreeAt seen contents.registry contents'.registry
  filled : contents'.filled = contents.filled

/-- A shell is claimed with the listed ids, and is one of them. -/
theorem AgreeAt.claim (agree : contents.AgreeAt seen contents') {parent : Option TypeId}
    {node name : Node} {members : List Node} (children : node.children = name :: members)
    (sees : ∀ id ∈ contents.registry.idsClaiming parent node, seen id) (kind : DeclarationKind) :
    Agree (fun (id, claimed) (id', claimed') =>
        seen id ∧ id' = id ∧ claimed.AgreeAt seen claimed')
      (contents.claim parent kind name) (contents'.claim parent kind name) := by
  rw [idsClaiming, children] at sees
  obtain ⟨around, found⟩ := List.forall_mem_append.mp sees
  rw [Contents.claim, Contents.claim]
  cases read : declarationName name with
  | error error => exact .error error
  | ok text =>
    obtain ⟨_, rfl⟩ := declarationName_eq_ok_iff.mp read
    simp only [agree.registry.qualify_eq around, lookup, agree.registry.find?_eq, agree.filled]
    cases qualified : contents.registry.qualify parent name.text with
    | error error => exact .error _
    | ok qualified' =>
      rw [qualified] at found
      dsimp only
      cases atName : contents.registry.find? qualified' with
      | none => exact .error _
      | some id =>
        have sees : seen id := found id (by simp [atName])
        simp only [agree.registry.get_eq sees]
        cases contents.registry.get id with
        | error error => exact .error _
        | ok declaration =>
          dsimp only
          split
          · exact .error _
          · exact .ok ⟨sees, rfl, agree.registry, rfl⟩

/-- An enumeration is filled in with the listed ids. -/
theorem AgreeAt.fillEnumeration (agree : contents.AgreeAt seen contents') {parent : Option TypeId}
    {node : Node} (sees : ∀ id ∈ contents.registry.idsClaiming parent node, seen id) :
    Agree (AgreeAt seen)
      ((Contents.fillEnumeration parent node contents).mapError Stopped.error)
      ((Contents.fillEnumeration parent node contents').mapError Stopped.error) := by
  rw [Contents.fillEnumeration, Contents.fillEnumeration]
  cases children : node.children with
  | nil => exact .error _
  | cons name members =>
    have claims := agree.claim children sees .enumeration
    dsimp only
    generalize contents.claim parent .enumeration name = claim,
      contents'.claim parent .enumeration name = claim' at claims
    cases claims with
    | error error => exact .error _
    | @ok result result' values =>
      obtain ⟨_, claimed⟩ := result
      obtain ⟨id, claimed'⟩ := result'
      obtain ⟨sees, rfl, like⟩ := values
      simp only [enumeration?, like.registry.declared _ sees]
      cases Option.bind _ Declaration.enumeration? with
      | none => exact .error _
      | some type => exact .ok ⟨like.registry.fillValues _ members, like.filled⟩

/-- Why members are stopped is why the first of them is stopped, or else why those behind are. -/
theorem fillMembers_cons_cause (camelCaseKeys : Bool) (owner : TypeId) (member : Node)
    (rest : List Node) (contents : Contents) :
    (fillMembers camelCaseKeys owner (member :: rest) contents).mapError Stopped.error =
      ((fillMembers camelCaseKeys owner [member] contents).mapError Stopped.error).bind
        fun filled => (fillMembers camelCaseKeys owner rest filled).mapError Stopped.error := by
  rw [fillMembers_cons]
  cases fillMembers camelCaseKeys owner [member] contents <;> rfl

/-- A record is filled in with the listed ids, if its members are. -/
theorem AgreeAt.fillRecord (agree : contents.AgreeAt seen contents') {parent : Option TypeId}
    {node : Node}
    (inner : ∀ (owner : TypeId) {claimed claimed' : Contents}, claimed.AgreeAt seen claimed' →
      (∀ lookup ∈ lookupsOfMembers camelCaseKeys owner node.members claimed, seen lookup.id) →
      Agree (AgreeAt seen)
        ((fillMembers camelCaseKeys owner node.members claimed).mapError Stopped.error)
        ((fillMembers camelCaseKeys owner node.members claimed').mapError Stopped.error))
    (sees : ∀ lookup ∈ lookupsOfRecord camelCaseKeys parent node contents, seen lookup.id) :
    Agree (AgreeAt seen)
      ((Contents.fillRecord camelCaseKeys parent node contents).mapError Stopped.error)
      ((Contents.fillRecord camelCaseKeys parent node contents').mapError Stopped.error) := by
  obtain ⟨kind, text, children, position⟩ := node
  cases children with
  | nil => exact .error _
  | cons name members =>
    rw [lookupsOfRecord] at sees
    obtain ⟨claiming, inside⟩ := List.forall_mem_append.mp sees
    have atNode : (Node.mk kind text (name :: members) position).children = name :: members := rfl
    have claims := agree.claim atNode (forall_mem_lookUp.mp claiming) .record
    rw [Contents.fillRecord, Contents.fillRecord]
    generalize contents.claim parent .record name = claim,
      contents'.claim parent .record name = claim' at claims inside
    cases claims with
    | error error => exact .error _
    | @ok result result' values =>
      obtain ⟨_, claimed⟩ := result
      obtain ⟨id, claimed'⟩ := result'
      obtain ⟨_, rfl, like⟩ := values
      exact inner _ like inside

/-- A member is filled in with the listed ids, if what is inside it is. -/
theorem AgreeAt.fillMember (agree : contents.AgreeAt seen contents') {owner : TypeId}
    {member : Node}
    (inner : ∀ (owner : TypeId) {claimed claimed' : Contents}, claimed.AgreeAt seen claimed' →
      (∀ lookup ∈ lookupsOfMembers camelCaseKeys owner member.members claimed, seen lookup.id) →
      Agree (AgreeAt seen)
        ((fillMembers camelCaseKeys owner member.members claimed).mapError Stopped.error)
        ((fillMembers camelCaseKeys owner member.members claimed').mapError Stopped.error))
    (sees : ∀ lookup ∈ lookupsOfMembers camelCaseKeys owner [member] contents, seen lookup.id) :
    Agree (AgreeAt seen)
      ((fillMembers camelCaseKeys owner [member] contents).mapError Stopped.error)
      ((fillMembers camelCaseKeys owner [member] contents').mapError Stopped.error) := by
  rw [lookupsOfMembers] at sees
  have here := (List.forall_mem_append.mp sees).1
  rw [fillMembers_singleton, fillMembers_singleton]
  cases kind : member.kind <;> rw [kind] at here
  case record => exact agree.fillRecord inner here
  case enumeration => exact agree.fillEnumeration (forall_mem_lookUp.mp here)
  case property =>
    obtain ⟨grown, grown', like, added, added'⟩ | ⟨error, refused, refused'⟩ :=
      agree.registry.fillProperty (forall_mem_lookUp.mp here) camelCaseKeys
    · simp only [added, added']
      exact .ok ⟨like, agree.filled⟩
    · simp only [refused, refused']
      exact .error error
  case comment => exact .ok ⟨agree.registry.onRecord owner fun _ => rfl, agree.filled⟩
  all_goals exact .ok agree

/-- Inside a record, the second pass looks up no other ids than those listed. -/
theorem fillMembers_agreeAt (nodes : List Node) {owner : TypeId}
    (agree : contents.AgreeAt seen contents')
    (sees : ∀ lookup ∈ lookupsOfMembers camelCaseKeys owner nodes contents, seen lookup.id) :
    Agree (AgreeAt seen)
      ((fillMembers camelCaseKeys owner nodes contents).mapError Stopped.error)
      ((fillMembers camelCaseKeys owner nodes contents').mapError Stopped.error) := by
  induction nodes using forest_induction generalizing owner contents contents' with
  | nil => exact .ok agree
  | cons node rest _ members ih =>
    rw [lookupsOfMembers] at sees
    obtain ⟨here, behind⟩ := List.forall_mem_append.mp sees
    have alone : ∀ lookup ∈ lookupsOfMembers camelCaseKeys owner [node] contents,
        seen lookup.id := by
      rw [lookupsOfMembers]
      refine List.forall_mem_append.mpr ⟨here, ?_⟩
      cases fillMembers camelCaseKeys owner [node] contents <;> simp [lookupsOfMembers]
    have first := agree.fillMember (fun _ => members) alone
    rw [fillMembers_cons_cause camelCaseKeys owner node rest contents,
      fillMembers_cons_cause camelCaseKeys owner node rest contents']
    generalize fillMembers camelCaseKeys owner [node] contents = filled at first behind
    cases filled with
    | error stopped =>
      rw [first.eq_error]
      exact .error _
    | ok next =>
      obtain ⟨next', filled', like⟩ := first.exists_ok
      rw [filled']
      exact ih like behind

/-- The second pass looks up no other ids than those listed: up to a fault or to the end, it does
the same with registries that agree at them. -/
theorem fillAll_agreeAt (schema : Schema) (agree : contents.AgreeAt seen contents')
    (sees : ∀ lookup ∈ lookupsOfAll camelCaseKeys schema contents, seen lookup.id) :
    Agree (AgreeAt seen)
      ((fillAll camelCaseKeys schema contents).mapError Halt.cause)
      ((fillAll camelCaseKeys schema contents').mapError Halt.cause) := by
  induction schema generalizing contents contents' with
  | nil => exact .ok agree
  | cons node rest ih =>
    rw [lookupsOfAll] at sees
    obtain ⟨here, behind⟩ := List.forall_mem_append.mp sees
    rw [lookupsOfTop] at here
    have first : Agree (AgreeAt seen)
        ((fillTop camelCaseKeys node contents).mapError Stopped.error)
        ((fillTop camelCaseKeys node contents').mapError Stopped.error) := by
      rw [fillTop, fillTop]
      cases kind : node.kind
      case record =>
        rw [kind] at here
        exact agree.fillRecord (fun _ _ _ like => fillMembers_agreeAt _ like) here
      case enumeration =>
        rw [kind] at here
        exact agree.fillEnumeration (forall_mem_lookUp.mp here)
      all_goals exact .ok agree
    rw [fillAll_cons_cause, fillAll_cons_cause]
    generalize fillTop camelCaseKeys node contents = filled at first behind
    cases filled with
    | error stopped =>
      rw [first.eq_error]
      exact .error _
    | ok next =>
      obtain ⟨next', filled', like⟩ := first.exists_ok
      rw [filled']
      exact ih like behind

end Contents

end SchemaGraph
