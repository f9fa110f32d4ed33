import Mathlib.Data.List.Nodup
import Mathlib.Logic.Relation
import SchemaGraph.Proofs.Lookup

/-!
# Registering declarations

A declaration is registered behind all others if its name is new and its parent, if it has one,
is a record; the parent gets one more child and nothing else changes. The first pass only ever
registers empty shells, so whatever every registration of a shell preserves holds of the
registry that the first pass leaves behind, whatever the shape of the schema.
-/

namespace SchemaGraph

namespace Registry

/-- Append children to a parent, if there is one. -/
def adopt (registry : Registry) (parent : Option TypeId) (children : List TypeId) : Registry :=
  match parent with
  | none => registry
  | some id => registry.onRecord id fun record =>
      { record with children := record.children ++ children }

/-- Append declarations. -/
def append (registry : Registry) (declarations : List Declaration) : Registry :=
  ⟨registry.declarations ++ declarations⟩

/-- The registry has a record of this id. -/
def HasRecord (registry : Registry) (id : TypeId) : Prop :=
  ∃ record, registry.declarations[id]? = some (.record record)

/-- A record is told by its kind. -/
theorem hasRecord_iff_kind {registry : Registry} {id : TypeId} :
    registry.HasRecord id ↔
      ∃ declaration,
        registry.declarations[id]? = some declaration ∧ declaration.kind = .record := by
  constructor
  · rintro ⟨record, found⟩
    exact ⟨_, found, rfl⟩
  · rintro ⟨declaration, found, kind⟩
    cases declaration with
    | record type => exact ⟨type, found⟩
    | _ => simp [Declaration.kind] at kind

/-- A record is found exactly if it stands under the id. -/
theorem record?_eq_some_iff {registry : Registry} {id : TypeId} {record : RecordType} :
    registry.record? id = some record ↔ registry.declarations[id]? = some (.record record) := by
  rw [record?]
  cases registry.declarations[id]? with
  | none => simp
  | some declaration => cases declaration <;> simp [Declaration.record?]

/-- None is found exactly if there is none. -/
theorem record?_eq_none_iff {registry : Registry} {id : TypeId} :
    registry.record? id = none ↔ ¬ registry.HasRecord id := by
  rw [← not_iff_not, not_not, ← ne_eq, Option.ne_none_iff_exists']
  exact exists_congr fun record => record?_eq_some_iff

/-- An enumeration is found exactly if it stands under the id. -/
theorem enumeration?_eq_some_iff {registry : Registry} {id : TypeId} {type : EnumType} :
    registry.enumeration? id = some type ↔
      registry.declarations[id]? = some (.enumeration type) := by
  rw [enumeration?]
  cases registry.declarations[id]? with
  | none => simp
  | some declaration => cases declaration <;> simp [Declaration.enumeration?]

/-- The ids of the declarations of a class are listed in order. -/
theorem map_fst_filter_entries (registry : Registry) (isOne : Declaration → Bool) :
    (registry.entries.filter (isOne ·.2)).map Prod.fst = registry.declarations.findIdxs isOne := by
  rw [entries, List.findIdxs_eq_filterMap_zipIdx, List.mapIdx_eq_zipIdx_map, List.filter_map,
    List.map_map, ← List.filterMap_eq_map, List.filterMap_filter]
  simp only [cond_eq_ite]
  rfl

/-- A change of a record leaves all other ids alone. -/
theorem getElem?_onRecord (registry : Registry) (id other : TypeId)
    (change : RecordType → RecordType) :
    (registry.onRecord id change).declarations[other]? =
      registry.declarations[other]?.map fun declaration =>
        if id = other then declaration.onRecord change else declaration := by
  rw [onRecord, List.getElem?_modify]
  cases registry.declarations[other]? <;> rfl

/-- A change of records that keeps what a function reads of them keeps what it reads of all
declarations. -/
theorem map_onRecord {α : Type} (registry : Registry) (id : TypeId)
    (change : RecordType → RecordType) (read : Declaration → α)
    (keeps : ∀ record, read (.record (change record)) = read (.record record)) :
    (registry.onRecord id change).declarations.map read = registry.declarations.map read := by
  apply List.ext_getElem?
  intro index
  rw [List.getElem?_map, List.getElem?_map, getElem?_onRecord]
  cases registry.declarations[index]? with
  | none => rfl
  | some declaration =>
    by_cases here : id = index
    · cases declaration <;> simp [here, Declaration.onRecord, keeps]
    · simp [here]

/-- A change of enumerations that keeps what a function reads of them keeps what it reads of all
declarations. -/
theorem map_onEnumeration {α : Type} (registry : Registry) (id : TypeId)
    (change : EnumType → EnumType) (read : Declaration → α)
    (keeps : ∀ type, read (.enumeration (change type)) = read (.enumeration type)) :
    (registry.onEnumeration id change).declarations.map read =
      registry.declarations.map read := by
  apply List.ext_getElem?
  intro index
  rw [List.getElem?_map, List.getElem?_map, onEnumeration, List.getElem?_modify]
  cases registry.declarations[index]? with
  | none => rfl
  | some declaration =>
    by_cases here : id = index
    · cases declaration <;> simp [here, Declaration.onEnumeration, keeps]
    · simp [here]

/-- To adopt children keeps whatever does not depend on them. -/
theorem map_adopt {α : Type} (registry : Registry) (parent : Option TypeId)
    (children : List TypeId) (read : Declaration → α)
    (keeps : ∀ record : RecordType,
      read (.record { record with children := record.children ++ children }) =
        read (.record record)) :
    (registry.adopt parent children).declarations.map read = registry.declarations.map read := by
  cases parent with
  | none => rfl
  | some id => exact map_onRecord registry id _ read keeps

/-- To add children to a parent keeps the names. -/
@[simp] theorem names_adopt (registry : Registry) (parent : Option TypeId)
    (children : List TypeId) : (registry.adopt parent children).names = registry.names :=
  map_adopt registry parent children Declaration.name fun _ => rfl

/-- To add children to a parent adds no declaration. -/
@[simp] theorem size_adopt (registry : Registry) (parent : Option TypeId)
    (children : List TypeId) : (registry.adopt parent children).size = registry.size := by
  rw [← length_names, names_adopt, length_names]

/-- Appended declarations have their names behind the others. -/
@[simp] theorem names_append (registry : Registry) (declarations : List Declaration) :
    (registry.append declarations).names = registry.names ++ declarations.map Declaration.name := by
  simp [append, names]

/-- The shells of appended declarations are appended to the shells. -/
theorem bare_append (registry : Registry) (declarations : List Declaration) :
    (registry.append declarations).bare =
      registry.bare.append (declarations.map Declaration.bare) := by
  simp [append, bare]

/-- Children belong to the shell of a record, not to its contents. -/
theorem bare_adopt (registry : Registry) (parent : Option TypeId) (children : List TypeId) :
    (registry.adopt parent children).bare = registry.bare.adopt parent children := by
  cases parent with
  | none => rfl
  | some id =>
    rw [Registry.mk.injEq]
    apply List.ext_getElem?
    intro index
    rw [getElem?_bare, adopt, adopt, getElem?_onRecord, getElem?_onRecord, getElem?_bare]
    cases registry.declarations[index]? with
    | none => rfl
    | some declaration =>
      by_cases here : id = index
      · cases declaration <;> simp [here, Declaration.onRecord, Declaration.bare]
      · simp [here]

/-- What is the same of two registries is the same at every id. -/
theorem getElem?_of_map_eq {α : Type} {registry registry' : Registry} {read : Declaration → α}
    (same : registry'.declarations.map read = registry.declarations.map read) (id : TypeId) :
    registry'.declarations[id]?.map read = registry.declarations[id]?.map read := by
  rw [← List.getElem?_map, ← List.getElem?_map, same]

/-- A declaration is accepted exactly if its name is new and its parent is a record; it gets the
next id. -/
theorem register_eq_ok_iff {registry grown : Registry} {declaration : Declaration} {id : TypeId} :
    registry.register declaration = .ok (id, grown) ↔
      declaration.name ∉ registry.names ∧
        (∀ parent, declaration.parent = some parent → registry.HasRecord parent) ∧
        id = registry.size ∧
        grown = (registry.adopt declaration.parent [registry.size]).append [declaration] := by
  rw [register, find?_eq]
  by_cases taken : declaration.name ∈ registry.names
  · simp [taken]
  · simp only [taken, ↓reduceIte, Option.isSome_none, Bool.false_eq_true, not_false_eq_true,
      true_and]
    cases parent : declaration.parent with
    | none =>
      simp only [reduceCtorEq, false_implies, implies_true, true_and, Except.ok.injEq,
        Prod.mk.injEq]
      exact and_congr eq_comm eq_comm
    | some around =>
      simp only [Option.some.injEq, forall_eq']
      cases found : registry.declarations[around]? with
      | none => simp [get, found, HasRecord]
      | some outer =>
        cases outer with
        | record record =>
          simp only [get, found, HasRecord, Except.ok.injEq, Prod.mk.injEq, Option.some.injEq,
            Declaration.record.injEq, exists_eq', true_and]
          exact and_congr eq_comm eq_comm
        | _ => simp [get, found, HasRecord]

/-- A registration keeps every earlier id together with its name, its kind and its parent. -/
structure Keeps (registry grown : Registry) : Prop where
  names : ∀ (id : TypeId) (declaration : Declaration),
    registry.declarations[id]? = some declaration →
    ∃ kept, grown.declarations[id]? = some kept ∧ kept.name = declaration.name ∧
      kept.kind = declaration.kind ∧ kept.parent = declaration.parent

/-- Nothing is lost if nothing is done. -/
theorem Keeps.refl (registry : Registry) : registry.Keeps registry :=
  ⟨fun _ declaration found => ⟨declaration, found, rfl, rfl, rfl⟩⟩

/-- What is kept twice is kept. -/
theorem Keeps.trans {first second third : Registry} (before : first.Keeps second)
    (behind : second.Keeps third) : first.Keeps third := by
  refine ⟨fun id declaration found => ?_⟩
  obtain ⟨kept, keptFound, name, kind, parent⟩ := before.names id declaration found
  obtain ⟨last, lastFound, name', kind', parent'⟩ := behind.names id kept keptFound
  exact ⟨last, lastFound, name'.trans name, kind'.trans kind, parent'.trans parent⟩

/-- A record stays a record. -/
theorem Keeps.hasRecord {registry grown : Registry} (keeps : registry.Keeps grown) {id : TypeId}
    (known : registry.HasRecord id) : grown.HasRecord id := by
  obtain ⟨declaration, found, record⟩ := hasRecord_iff_kind.mp known
  obtain ⟨kept, keptFound, _, kind, _⟩ := keeps.names id declaration found
  exact hasRecord_iff_kind.mpr ⟨kept, keptFound, kind.trans record⟩

/-- Records that stand inside one another go on doing so. -/
theorem Stands.of_keeps {registry grown : Registry} (keeps : registry.Keeps grown)
    {path : List String} {scope : Option TypeId} (stands : registry.Stands path scope) :
    grown.Stands path scope := by
  induction path generalizing scope with
  | nil => exact stands
  | cons record outer ih =>
    obtain ⟨id, declaration, same, found, named, around⟩ := stands
    obtain ⟨kept, keptFound, name, _, parent⟩ := keeps.names id declaration found
    exact ⟨id, kept, same, keptFound, name.trans named, parent ▸ ih around⟩

/-- A declaration that adopts children keeps its name, its kind and its parent. -/
theorem getElem?_adopt {registry : Registry} {id : TypeId} {declaration : Declaration}
    (found : registry.declarations[id]? = some declaration) (parent : Option TypeId)
    (children : List TypeId) :
    ∃ kept, (registry.adopt parent children).declarations[id]? = some kept ∧
      kept.name = declaration.name ∧ kept.kind = declaration.kind ∧
      kept.parent = declaration.parent := by
  have same := getElem?_of_map_eq (map_adopt registry parent children
    (fun declaration => (declaration.name, declaration.kind, declaration.parent))
    fun _ => rfl) id
  rw [found, Option.map_some] at same
  obtain ⟨kept, keptFound, read⟩ := Option.map_eq_some_iff.mp same
  simp only [Prod.mk.injEq] at read
  exact ⟨kept, keptFound, read⟩

/-- To register a declaration keeps all earlier ones. -/
theorem keeps_of_register {registry grown : Registry} {declaration : Declaration} {id : TypeId}
    (success : registry.register declaration = .ok (id, grown)) : registry.Keeps grown := by
  obtain ⟨_, _, _, rfl⟩ := register_eq_ok_iff.mp success
  refine ⟨fun other earlier found => ?_⟩
  obtain ⟨kept, keptFound, same⟩ := getElem?_adopt found declaration.parent [registry.size]
  obtain ⟨inRange, _⟩ := List.getElem?_eq_some_iff.mp keptFound
  exact ⟨kept, by rw [append, List.getElem?_append_left inRange, keptFound], same⟩

/-- The new name is put behind the others. -/
theorem names_of_register {registry grown : Registry} {declaration : Declaration} {id : TypeId}
    (success : registry.register declaration = .ok (id, grown)) :
    grown.names = registry.names ++ [declaration.name] := by
  obtain ⟨_, _, _, rfl⟩ := register_eq_ok_iff.mp success
  rw [names_append, names_adopt, List.map_singleton]

/-- Ids are given out one after the other. -/
theorem size_of_register {registry grown : Registry} {declaration : Declaration} {id : TypeId}
    (success : registry.register declaration = .ok (id, grown)) :
    id = registry.size ∧ grown.size = registry.size + 1 := by
  refine ⟨(register_eq_ok_iff.mp success).2.2.1, ?_⟩
  rw [← length_names, names_of_register success, List.length_append, length_names]
  rfl

/-- What is registered stands under its id. -/
theorem getElem?_registered {registry grown : Registry} {declaration : Declaration} {id : TypeId}
    (success : registry.register declaration = .ok (id, grown)) :
    grown.declarations[id]? = some declaration := by
  obtain ⟨_, _, rfl, rfl⟩ := register_eq_ok_iff.mp success
  have length := size_adopt registry declaration.parent [registry.size]
  rw [size] at length
  rw [append, List.getElem?_append_right (Nat.le_of_eq length), length, Nat.sub_self]
  rfl

/-- Names stay distinct, since a taken one is refused. -/
theorem nodup_names_of_register {registry grown : Registry} {declaration : Declaration}
    {id : TypeId} (distinct : registry.names.Nodup)
    (success : registry.register declaration = .ok (id, grown)) : grown.names.Nodup := by
  have fresh := (register_eq_ok_iff.mp success).1
  rw [names_of_register success]
  refine List.nodup_append.mpr ⟨distinct, List.nodup_singleton _, ?_⟩
  intro earlier hearlier last hlast same
  rw [List.mem_singleton] at hlast
  exact fresh (hlast ▸ same ▸ hearlier)

/-- Parents go on to precede their children, since only what is there can be a parent. -/
theorem parentsPrecede_of_register {registry grown : Registry} {declaration : Declaration}
    {id : TypeId} (precede : registry.ParentsPrecede)
    (success : registry.register declaration = .ok (id, grown)) : grown.ParentsPrecede := by
  obtain ⟨_, inRecord, _, rfl⟩ := register_eq_ok_iff.mp success
  intro other found parent atOther nested
  rw [append] at atOther
  by_cases earlier : other < (registry.adopt declaration.parent [registry.size]).declarations.length
  · rw [List.getElem?_append_left earlier] at atOther
    have same := getElem?_of_map_eq (map_adopt registry declaration.parent [registry.size]
      Declaration.parent fun _ => rfl) other
    rw [atOther, Option.map_some, nested] at same
    obtain ⟨old, oldFound, oldParent⟩ := Option.map_eq_some_iff.mp same.symm
    exact precede other old parent oldFound oldParent
  · have behind := Nat.le_of_not_lt earlier
    rw [List.getElem?_append_right behind] at atOther
    have last : found = declaration := List.mem_singleton.mp (List.mem_of_getElem? atOther)
    obtain ⟨record, recordFound⟩ := inRecord parent (last ▸ nested)
    have inRange := (List.getElem?_eq_some_iff.mp recordFound).1
    have adopted := size_adopt registry declaration.parent [registry.size]
    exact Nat.lt_of_lt_of_le inRange (adopted.symm.trans_le behind)

/-- A registry of shells stays one when a shell is registered. -/
theorem bare_of_register {registry grown : Registry} {declaration : Declaration} {id : TypeId}
    (bare : registry.bare = registry) (shell : declaration.bare = declaration)
    (success : registry.register declaration = .ok (id, grown)) : grown.bare = grown := by
  obtain ⟨_, _, _, rfl⟩ := register_eq_ok_iff.mp success
  rw [bare_append, bare_adopt, bare, List.map_singleton, shell]

end Registry

end SchemaGraph
