import Mathlib.Data.List.Nodup
import SchemaGraph.Proofs.FirstPass

/-!
# Coherent registries

A registry says where a declaration is nested twice: the declaration names its parent, and the
parent lists its children. A registry in which the two agree and no name is taken twice is coherent.
The empty registry and that of the builtin types are coherent, and every operation keeps a registry
coherent. In a coherent registry parents come first, so nesting has no cycles.

Operations are taken here on the declarations alone, and what is refused is left out. That this is
what becomes of a registry that is changed in place, with an index of its names, is shown where such
a registry is treated.
-/

namespace SchemaGraph

namespace Declaration

/-- A declaration as it is made: nothing is nested in it and nothing fills it in. -/
inductive IsFresh : Declaration → Prop
  | primitive (name : String) : IsFresh (.primitive name)
  | blob (name : String) : IsFresh (.blob name)
  | record (name : String) (parent : Option TypeId) :
      IsFresh (.record (RecordType.shell name parent))
  | enumeration (name : String) (parent : Option TypeId) :
      IsFresh (.enumeration (EnumType.shell name parent))

/-- The declarations that are listed as nested in this one. -/
def children : Declaration → List TypeId
  | record type => type.children
  | _ => []

/-- What places a declaration in the graph. -/
def links (declaration : Declaration) : String × DeclarationKind × Option TypeId × List TypeId :=
  (declaration.name, declaration.kind, declaration.parent, declaration.children)

/-- The identity of a record, if it has one, is one of its properties. -/
def IdentityInRange : Declaration → Prop
  | record type => ∀ index, type.identity = some index → index < type.properties.length
  | _ => True

/-- A fresh declaration has no children yet. -/
theorem IsFresh.children {declaration : Declaration} (fresh : declaration.IsFresh) :
    declaration.children = [] := by
  cases fresh <;> rfl

/-- A fresh declaration has no identity property, and so none out of range. -/
theorem IsFresh.identityInRange {declaration : Declaration} (fresh : declaration.IsFresh) :
    declaration.IdentityInRange := by
  cases fresh <;> simp [IdentityInRange, RecordType.shell]

end Declaration

namespace Registry

/-- One operation on a registry. -/
inductive Operation
  /-- Register a declaration as it is made, under any name and any parent. -/
  | register (declaration : Declaration) (fresh : declaration.IsFresh)
  | registerRecord (parent : Option TypeId) (localName : String)
  | registerEnumeration (parent : Option TypeId) (localName : String)
  | addProperty (id : TypeId) (property : Property)
  | setIdentity (id : TypeId) (index : Nat)
  | addValue (id : TypeId) (value : String)

/-- The answer to an operation. -/
inductive Answer
  /-- The declaration is registered under this id. -/
  | registered (id : TypeId)
  /-- The declaration is not registered. -/
  | refused (error : RegistryError)
  /-- The property stands at this position. -/
  | appended (index : Nat)
  /-- Whether there is a property at the position. -/
  | designated (success : Bool)
  /-- The value is appended. -/
  | valueAdded
  /-- The id is not that of a record or an enumeration, whichever is asked for. -/
  | absent
deriving DecidableEq

/-- What a registration comes to on the declarations alone, where one that is refused is left
out. -/
def settle (registry : Registry) : Except RegistryError (TypeId × Registry) → Answer × Registry
  | .ok (id, grown) => (.registered id, grown)
  | .error error => (.refused error, registry)

/-- Perform an operation. -/
def perform (registry : Registry) : Operation → Answer × Registry
  | .register declaration _ => registry.settle (registry.register declaration)
  | .registerRecord parent localName => registry.settle (registry.registerRecord parent localName)
  | .registerEnumeration parent localName =>
    registry.settle (registry.registerEnumeration parent localName)
  | .addProperty id property =>
    match registry.record? id with
    | some record =>
      (.appended record.properties.length, registry.onRecord id (.addProperty property))
    | none => (.absent, registry)
  | .setIdentity id index =>
    match registry.record? id with
    | some record =>
      (.designated (index < record.properties.length), registry.onRecord id (.setIdentity index))
    | none => (.absent, registry)
  | .addValue id value =>
    match registry.enumeration? id with
    | some _ => (.valueAdded, registry.onEnumeration id (.addValue value))
    | none => (.absent, registry)

/-- The registries that operations lead to, from the empty one or that of the builtin types. -/
inductive Reachable : Registry → Prop
  | empty : Reachable Registry.empty
  | builtins {primitives : List String} {blob : String} {registry : Registry}
      (registered : withBuiltins primitives blob = .ok registry) : Reachable registry
  | perform {registry : Registry} (before : Reachable registry) (operation : Operation) :
      Reachable (registry.perform operation).2

/-- The ids of the declarations that name this one as their parent. -/
def nestedIn (registry : Registry) (id : TypeId) : List TypeId :=
  registry.declarations.findIdxs fun declaration => declaration.parent == some id

/-- The registry agrees with itself: names are distinct, parents are records that come first, the
children that are listed are those that name the parent, and identities are in range. -/
structure Coherent (registry : Registry) : Prop where
  distinct : registry.names.Nodup
  parents : ∀ (id : TypeId) (declaration : Declaration) (parent : TypeId),
    registry.declarations[id]? = some declaration → declaration.parent = some parent →
    registry.HasRecord parent ∧ parent < id
  children : ∀ (id : TypeId) (declaration : Declaration),
    registry.declarations[id]? = some declaration → declaration.children = registry.nestedIn id
  identity : ∀ declaration ∈ registry.declarations, declaration.IdentityInRange

/-- Coherence holds at the start. -/
theorem coherent_empty : Coherent empty := by
  constructor <;> simp [empty, names]

section Step

variable {registry registry' : Registry}

/-- A record has an id that was given out. -/
theorem HasRecord.lt_size {id : TypeId} (record : registry.HasRecord id) : id < registry.size := by
  obtain ⟨type, found⟩ := record
  exact (List.getElem?_eq_some_iff.mp found).1

/-- Which declarations name a parent depends on the parents only. -/
theorem nestedIn_eq_of_map_parent
    (same : registry'.declarations.map Declaration.parent =
      registry.declarations.map Declaration.parent) (id : TypeId) :
    registry'.nestedIn id = registry.nestedIn id := by
  have onParents (other : Registry) : other.nestedIn id =
      (other.declarations.map Declaration.parent).findIdxs (· == some id) := by
    rw [List.findIdxs_map]
    rfl
  rw [onParents, onParents, same]

/-- Coherence depends on what places the declarations in the graph, and besides on nothing but the
identities. -/
theorem Coherent.of_links (coherent : registry.Coherent)
    (same : registry'.declarations.map Declaration.links =
      registry.declarations.map Declaration.links)
    (identity : ∀ declaration ∈ registry'.declarations, declaration.IdentityInRange) :
    registry'.Coherent := by
  have names : registry'.names = registry.names := by
    simpa [Registry.names, Function.comp_def, Declaration.links] using
      congrArg (List.map Prod.fst) same
  have parents : registry'.declarations.map Declaration.parent =
      registry.declarations.map Declaration.parent := by
    simpa [Function.comp_def, Declaration.links] using
      congrArg (List.map fun links => links.2.2.1) same
  have before (id : TypeId) (declaration : Declaration)
      (found : registry'.declarations[id]? = some declaration) :
      ∃ earlier, registry.declarations[id]? = some earlier ∧ earlier.links = declaration.links := by
    have here := getElem?_of_map_eq same id
    rw [found, Option.map_some] at here
    exact Option.map_eq_some_iff.mp here.symm
  have kept : registry.Keeps registry' := by
    refine ⟨fun id declaration found => ?_⟩
    have here := getElem?_of_map_eq same id
    rw [found, Option.map_some] at here
    obtain ⟨later, atId, links⟩ := Option.map_eq_some_iff.mp here
    simp only [Declaration.links, Prod.mk.injEq] at links
    exact ⟨later, atId, links.1, links.2.1, links.2.2.1⟩
  refine ⟨names ▸ coherent.distinct, fun id declaration parent found nested => ?_,
    fun id declaration found => ?_, identity⟩
  · obtain ⟨earlier, atId, links⟩ := before id declaration found
    simp only [Declaration.links, Prod.mk.injEq] at links
    obtain ⟨record, inFront⟩ := coherent.parents id earlier parent atId (links.2.2.1.trans nested)
    exact ⟨kept.hasRecord record, inFront⟩
  · obtain ⟨earlier, atId, links⟩ := before id declaration found
    simp only [Declaration.links, Prod.mk.injEq] at links
    rw [← links.2.2.2, coherent.children id earlier atId, nestedIn_eq_of_map_parent parents]

/-- A change of a record that leaves its place in the graph and keeps its identity in range keeps
the registry coherent. -/
theorem Coherent.onRecord (coherent : registry.Coherent) (id : TypeId)
    {change : RecordType → RecordType}
    (links : ∀ type, (Declaration.record (change type)).links = (Declaration.record type).links)
    (identity : ∀ type, (Declaration.record type).IdentityInRange →
      (Declaration.record (change type)).IdentityInRange) :
    (registry.onRecord id change).Coherent := by
  refine coherent.of_links (map_onRecord registry id change Declaration.links links) ?_
  intro declaration listed
  obtain ⟨index, found⟩ := List.mem_iff_getElem?.mp listed
  rw [getElem?_onRecord] at found
  obtain ⟨earlier, atIndex, rfl⟩ := Option.map_eq_some_iff.mp found
  have inRange := coherent.identity earlier (List.mem_of_getElem? atIndex)
  split
  · cases earlier with
    | record type => exact identity type inRange
    | _ => trivial
  · exact inRange

/-- A new value leaves an enumeration in its place. -/
theorem Coherent.addValue (coherent : registry.Coherent) (id : TypeId) (value : String) :
    (registry.onEnumeration id (.addValue value)).Coherent := by
  refine coherent.of_links (map_onEnumeration registry id _ Declaration.links fun _ => rfl) ?_
  have sameIdentity := map_onEnumeration registry id (.addValue value)
    Declaration.IdentityInRange fun _ => rfl
  intro declaration listed
  have holds := List.mem_map_of_mem (f := Declaration.IdentityInRange) listed
  rw [sameIdentity] at holds
  obtain ⟨earlier, before, same⟩ := List.mem_map.mp holds
  exact same ▸ coherent.identity earlier before

/-- Adoption changes the children of the parent and nothing else. -/
theorem getElem?_adopt_eq (registry : Registry) (parent : Option TypeId) (children : List TypeId)
    (id : TypeId) :
    (registry.adopt parent children).declarations[id]? =
      registry.declarations[id]?.map fun declaration =>
        if parent = some id then
          declaration.onRecord fun record =>
            { record with children := record.children ++ children }
        else declaration := by
  cases parent with
  | none => simp [adopt]
  | some around => simp [adopt, getElem?_onRecord]

/-- After a registration a declaration is the new one, or an earlier one which may have been given
the new one as a child. -/
theorem getElem?_of_register {declaration found : Declaration} {id newId : TypeId}
    (success : registry.register declaration = .ok (newId, registry'))
    (atId : registry'.declarations[id]? = some found) :
    (id = registry.size ∧ found = declaration) ∨
      ∃ earlier, registry.declarations[id]? = some earlier ∧
        found = if declaration.parent = some id then
          earlier.onRecord fun record =>
            { record with children := record.children ++ [registry.size] }
        else earlier := by
  obtain ⟨_, _, _, rfl⟩ := register_eq_ok_iff.mp success
  have length : (registry.adopt declaration.parent [registry.size]).declarations.length =
      registry.size := size_adopt registry declaration.parent [registry.size]
  rw [append] at atId
  by_cases earlier : id < registry.size
  · rw [List.getElem?_append_left (earlier.trans_eq length.symm), getElem?_adopt_eq] at atId
    obtain ⟨old, oldFound, rfl⟩ := Option.map_eq_some_iff.mp atId
    exact .inr ⟨old, oldFound, rfl⟩
  · have bound := (List.getElem?_eq_some_iff.mp atId).1
    rw [List.length_append, length, List.length_singleton] at bound
    have last : id = registry.size :=
      Nat.le_antisymm (Nat.le_of_lt_succ bound) (Nat.le_of_not_lt earlier)
    rw [last, List.getElem?_append_right (Nat.le_of_eq length), length, Nat.sub_self] at atId
    exact .inl ⟨last, (Option.some.inj atId).symm⟩

/-- A registration adds its id to the children of the parent. -/
theorem nestedIn_of_register {declaration : Declaration} {newId : TypeId}
    (success : registry.register declaration = .ok (newId, registry')) (id : TypeId) :
    registry'.nestedIn id =
      registry.nestedIn id ++ if declaration.parent = some id then [registry.size] else [] := by
  obtain ⟨_, _, _, rfl⟩ := register_eq_ok_iff.mp success
  have adopted := nestedIn_eq_of_map_parent (map_adopt registry declaration.parent
    [registry.size] Declaration.parent fun _ => rfl) id
  have length : (registry.adopt declaration.parent [registry.size]).declarations.length =
      registry.size := size_adopt registry declaration.parent [registry.size]
  rw [← adopted, nestedIn, nestedIn, append, List.findIdxs_append, length, Nat.zero_add,
    List.findIdxs_singleton]
  simp

/-- Nothing is nested in what is not registered yet. -/
theorem Coherent.nestedIn_size (coherent : registry.Coherent) :
    registry.nestedIn registry.size = [] := by
  rw [nestedIn, List.findIdxs_eq_nil_iff]
  intro declaration listed
  obtain ⟨id, found⟩ := List.mem_iff_getElem?.mp listed
  by_contra nested
  obtain ⟨record, _⟩ := coherent.parents id declaration registry.size found (by simpa using nested)
  exact Nat.lt_irrefl _ record.lt_size

/-- A fresh declaration is registered coherently. -/
theorem Coherent.register (coherent : registry.Coherent) {declaration : Declaration}
    (fresh : declaration.IsFresh) {newId : TypeId}
    (success : registry.register declaration = .ok (newId, registry')) : registry'.Coherent := by
  -- What is new has no children and is a parent of nothing, so of all that was there only the
  -- children of its own parent change.
  have keeps := keeps_of_register success
  obtain ⟨_, inRecord, _, _⟩ := register_eq_ok_iff.mp success
  have precede : registry.ParentsPrecede :=
    fun id earlier parent found nested => (coherent.parents id earlier parent found nested).2
  refine ⟨nodup_names_of_register coherent.distinct success,
    fun id found parent atId nested =>
      ⟨?_, parentsPrecede_of_register precede success id found parent atId nested⟩,
    fun id found atId => ?_, fun found listed => ?_⟩
  · rcases getElem?_of_register success atId with ⟨_, rfl⟩ | ⟨earlier, oldFound, rfl⟩
    · exact keeps.hasRecord (inRecord parent nested)
    · have oldNested : earlier.parent = some parent := by
        split at nested
        · cases earlier <;> exact nested
        · exact nested
      exact keeps.hasRecord (coherent.parents id earlier parent oldFound oldNested).1
  · rw [nestedIn_of_register success]
    rcases getElem?_of_register success atId with ⟨rfl, rfl⟩ | ⟨earlier, oldFound, rfl⟩
    · have notSelf : found.parent ≠ some registry.size :=
        fun nested => Nat.lt_irrefl _ (inRecord _ nested).lt_size
      rw [fresh.children, coherent.nestedIn_size, if_neg notSelf, List.append_nil]
    · rw [← coherent.children id earlier oldFound]
      split
      · rename_i nested
        obtain ⟨record, isRecord⟩ := inRecord id nested
        obtain rfl := Option.some.inj (oldFound.symm.trans isRecord)
        rfl
      · rw [List.append_nil]
  · obtain ⟨id, atId⟩ := List.mem_iff_getElem?.mp listed
    rcases getElem?_of_register success atId with ⟨_, rfl⟩ | ⟨earlier, oldFound, rfl⟩
    · exact fresh.identityInRange
    · have inRange := coherent.identity earlier (List.mem_of_getElem? oldFound)
      split
      · cases earlier <;> exact inRange
      · exact inRange

end Step

/-- Registering fresh declarations one after the other keeps a registry coherent. -/
theorem Coherent.registerAll {registry grown : Registry} (coherent : registry.Coherent)
    {declarations : List Declaration} (fresh : ∀ declaration ∈ declarations, declaration.IsFresh)
    (success : registry.registerAll declarations = .ok grown) : grown.Coherent := by
  induction declarations generalizing registry with
  | nil =>
    obtain rfl := Except.ok.inj success
    exact coherent
  | cons declaration rest ih =>
    rw [List.forall_mem_cons] at fresh
    rw [Registry.registerAll] at success
    split at success
    · rename_i next first
      exact ih (coherent.register fresh.1 first) fresh.2 success
    · simp at success

/-- Coherence holds once the builtin types are registered, which is where a compile starts. -/
theorem coherent_of_withBuiltins {primitives : List String} {blob : String} {registry : Registry}
    (success : withBuiltins primitives blob = .ok registry) : registry.Coherent := by
  refine coherent_empty.registerAll (fun declaration listed => ?_) success
  rcases List.mem_append.mp listed with primitive | last
  · obtain ⟨name, _, rfl⟩ := List.mem_map.mp primitive
    exact .primitive name
  · rw [List.mem_singleton.mp last]
    exact .blob blob

section Perform

variable {registry : Registry}

/-- A record or an enumeration under a local name is registered as a fresh declaration. -/
theorem exists_register_of_registerRecord {parent : Option TypeId} {localName : String}
    {id : TypeId} {grown : Registry}
    (success : registry.registerRecord parent localName = .ok (id, grown)) :
    ∃ declaration, declaration.IsFresh ∧ registry.register declaration = .ok (id, grown) := by
  rw [registerRecord] at success
  split at success
  · exact ⟨_, .record _ _, success⟩
  · simp at success

/-- To register an enumeration under a local name is to register a fresh declaration. -/
theorem exists_register_of_registerEnumeration {parent : Option TypeId} {localName : String}
    {id : TypeId} {grown : Registry}
    (success : registry.registerEnumeration parent localName = .ok (id, grown)) :
    ∃ declaration, declaration.IsFresh ∧ registry.register declaration = .ok (id, grown) := by
  rw [registerEnumeration] at success
  split at success
  · exact ⟨_, .enumeration _ _, success⟩
  · simp at success

/-- A registration is settled with an id exactly if it has succeeded. -/
theorem settle_eq_registered_iff {result : Except RegistryError (TypeId × Registry)}
    {id : TypeId} {grown : Registry} :
    registry.settle result = (.registered id, grown) ↔ result = .ok (id, grown) := by
  cases result <;> simp [settle, Prod.ext_iff]

/-- An operation that registers something registers a fresh declaration. -/
theorem exists_register_of_perform {operation : Operation} {id : TypeId} {grown : Registry}
    (registered : registry.perform operation = (.registered id, grown)) :
    ∃ declaration, declaration.IsFresh ∧ registry.register declaration = .ok (id, grown) := by
  cases operation with
  | register declaration fresh => exact ⟨declaration, fresh, settle_eq_registered_iff.mp registered⟩
  | registerRecord =>
    exact exists_register_of_registerRecord (settle_eq_registered_iff.mp registered)
  | registerEnumeration =>
    exact exists_register_of_registerEnumeration (settle_eq_registered_iff.mp registered)
  | addProperty => rw [perform] at registered; split at registered <;> simp at registered
  | setIdentity => rw [perform] at registered; split at registered <;> simp at registered
  | addValue => rw [perform] at registered; split at registered <;> simp at registered

/-- Whether or not a registration succeeds, the registry that it is settled with is coherent. -/
theorem Coherent.settle (coherent : registry.Coherent)
    {result : Except RegistryError (TypeId × Registry)}
    (registers : ∀ id grown, result = .ok (id, grown) → grown.Coherent) :
    (registry.settle result).2.Coherent := by
  cases result with
  | ok registered => exact registers _ _ rfl
  | error error => exact coherent

/-- Every operation keeps a registry coherent. -/
theorem Coherent.perform (coherent : registry.Coherent) (operation : Operation) :
    (registry.perform operation).2.Coherent := by
  cases operation with
  | register declaration fresh => exact coherent.settle fun _ _ => coherent.register fresh
  | registerRecord =>
    refine coherent.settle fun id grown success => ?_
    obtain ⟨_, fresh, registered⟩ := exists_register_of_registerRecord success
    exact coherent.register fresh registered
  | registerEnumeration =>
    refine coherent.settle fun id grown success => ?_
    obtain ⟨_, fresh, registered⟩ := exists_register_of_registerEnumeration success
    exact coherent.register fresh registered
  | addProperty id property =>
    rw [Registry.perform]
    split
    · refine coherent.onRecord id (fun _ => rfl) fun type inRange index identity => ?_
      exact (inRange index identity).trans (by simp [RecordType.addProperty])
    · exact coherent
  | setIdentity id index =>
    rw [Registry.perform]
    split
    · refine coherent.onRecord id (fun type => ?_) fun type inRange => ?_
      · rw [RecordType.setIdentity]
        split <;> rfl
      · rw [RecordType.setIdentity]
        split
        · rintro _ ⟨⟩
          assumption
        · exact inRange
    · exact coherent
  | addValue id value =>
    rw [Registry.perform]
    split
    · exact coherent.addValue id value
    · exact coherent

/-- Whatever operations lead to is coherent. -/
theorem Reachable.coherent (reachable : registry.Reachable) : registry.Coherent := by
  induction reachable with
  | empty => exact coherent_empty
  | builtins registered => exact coherent_of_withBuiltins registered
  | perform _ operation ih => exact ih.perform operation

/-- In a coherent registry a name is found exactly where the declaration of the name stands. -/
theorem Coherent.lookup_eq_ok_iff (coherent : registry.Coherent) {name : String} {id : TypeId} :
    registry.lookup name = .ok id ↔
      ∃ declaration, registry.declarations[id]? = some declaration ∧ declaration.name = name := by
  have found : registry.lookup name = .ok id ↔ registry.find? name = some id := by
    rw [lookup]
    cases registry.find? name <;> simp
  rw [found]
  refine ⟨name_of_find?, ?_⟩
  rintro ⟨declaration, atId, rfl⟩
  exact find?_of_getElem? coherent.distinct atId

/-- In a coherent registry the children of a record are, in order, what names it as its parent. -/
theorem Coherent.children_record (coherent : registry.Coherent) {id : TypeId}
    {record : RecordType} (found : registry.declarations[id]? = some (.record record)) :
    record.children.Pairwise (· < ·) ∧
      ∀ child, child ∈ record.children ↔ ∃ declaration,
        registry.declarations[child]? = some declaration ∧ declaration.parent = some id := by
  have children : record.children = registry.nestedIn id := coherent.children id _ found
  rw [children, nestedIn]
  refine ⟨List.pairwise_findIdxs, fun child => ?_⟩
  rw [List.mem_findIdxs_iff_exists_getElem_pos]
  constructor
  · rintro ⟨inRange, nested⟩
    exact ⟨_, List.getElem?_eq_getElem inRange, by simpa using nested⟩
  · rintro ⟨declaration, atChild, nested⟩
    obtain ⟨inRange, rfl⟩ := List.getElem?_eq_some_iff.mp atChild
    exact ⟨inRange, by simpa using nested⟩

/-- What is accepted is registered with the next id, and nothing earlier moves. -/
theorem keeps_of_perform {operation : Operation} {id : TypeId} {grown : Registry}
    (registered : registry.perform operation = (.registered id, grown)) :
    id = registry.size ∧ grown.size = registry.size + 1 ∧ registry.Keeps grown := by
  obtain ⟨declaration, _, success⟩ := exists_register_of_perform registered
  obtain ⟨isNext, grows⟩ := size_of_register success
  exact ⟨isNext, grows, keeps_of_register success⟩

/-- An index that no property has is not designated, and the registry stays as it is. -/
theorem onRecord_setIdentity_outOfRange {id : TypeId} {record : RecordType} {index : Nat}
    (found : registry.declarations[id]? = some (.record record))
    (outOfRange : record.properties.length ≤ index) :
    registry.onRecord id (.setIdentity index) = registry := by
  rw [Registry.mk.injEq]
  apply List.ext_getElem?
  intro other
  rw [getElem?_onRecord]
  by_cases here : id = other
  · subst here
    simp [found, Declaration.onRecord, RecordType.setIdentity, Nat.not_lt.mpr outOfRange]
  · simp [here]

end Perform

/-- Perform operations one after the other, whatever they answer. -/
def performAll (registry : Registry) (operations : List Operation) : Registry :=
  operations.foldl (fun current operation => (current.perform operation).2) registry

/-- Operations lead from reachable registries to reachable ones. -/
theorem Reachable.performAll {registry : Registry} (reachable : registry.Reachable)
    (operations : List Operation) : (registry.performAll operations).Reachable := by
  induction operations generalizing registry with
  | nil => exact reachable
  | cons operation rest ih => exact ih (reachable.perform operation)

end Registry

end SchemaGraph
