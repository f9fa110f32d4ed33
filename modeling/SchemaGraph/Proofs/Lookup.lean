import Mathlib.Data.List.Infix
import SchemaGraph.Contents
import SchemaGraph.Proofs.QualifiedNames

/-!
# Looking names up

A lookup asks for the position of a name among the names of the registry. A reference from
inside a record tries the candidates of the record's path in order and takes the first one that
is registered. All of this depends on the shells of the declarations only: their contents never
decide what a name denotes.
-/

namespace SchemaGraph

/-- The declaration without its contents, as the first pass registers it. -/
def Declaration.bare : Declaration → Declaration
  | record type => record { type with comment := none, properties := [], identity := none }
  | enumeration type => enumeration { type with comment := none, values := [] }
  | builtin => builtin

namespace Declaration

/-- The name of a declaration belongs to its shell. -/
@[simp] theorem name_bare (declaration : Declaration) :
    declaration.bare.name = declaration.name := by
  cases declaration <;> rfl

/-- A shell is of the kind of its declaration. -/
@[simp] theorem kind_bare (declaration : Declaration) :
    declaration.bare.kind = declaration.kind := by
  cases declaration <;> rfl

/-- The shell of a declaration belongs to the user if the declaration does. -/
@[simp] theorem isUser_bare (declaration : Declaration) :
    declaration.bare.isUser = declaration.isUser := by
  cases declaration <;> rfl

/-- A shell has the parent of its declaration. -/
@[simp] theorem parent_bare (declaration : Declaration) :
    declaration.bare.parent = declaration.parent := by
  cases declaration <;> rfl

end Declaration

namespace Registry

/-- The qualified names in order of registration. -/
def names (registry : Registry) : List String :=
  registry.declarations.map Declaration.name

/-- The registry with the contents of all declarations dropped. -/
def bare (registry : Registry) : Registry :=
  ⟨registry.declarations.map Declaration.bare⟩

/-- An id is looked up successfully exactly if a declaration stands at its position. -/
theorem get_eq_ok_iff {registry : Registry} {id : TypeId} {declaration : Declaration} :
    registry.get id = .ok declaration ↔ registry.declarations[id]? = some declaration := by
  rw [get]
  cases registry.declarations[id]? <;> simp

/-- There are as many names as declarations. -/
theorem length_names (registry : Registry) : registry.names.length = registry.size := by
  simp [names, size]

/-- A name is found at its first position. -/
theorem find?_eq (registry : Registry) (name : String) :
    registry.find? name =
      if name ∈ registry.names then some (registry.names.idxOf name) else none := by
  have overNames : registry.find? name = registry.names.findIdx? (· == name) := by
    rw [find?, names, List.findIdx?_map]
    rfl
  rw [overNames]
  by_cases listed : name ∈ registry.names
  · rw [if_pos listed]
    exact List.findIdx?_eq_some_iff_findIdx_eq.mpr ⟨List.idxOf_lt_length_iff.mpr listed, rfl⟩
  · rw [if_neg listed]
    refine List.findIdx?_eq_none_iff.mpr fun other hother => ?_
    have apart : other ≠ name := fun same => listed (same ▸ hother)
    simpa using apart

/-- What is found under a name has this name. -/
theorem name_of_find? {registry : Registry} {name : String} {id : TypeId}
    (found : registry.find? name = some id) :
    ∃ declaration, registry.declarations[id]? = some declaration ∧ declaration.name = name := by
  rw [find?_eq] at found
  split at found
  · rename_i listed
    have atIndex := List.getElem?_idxOf listed
    rw [Option.some.inj found, names, List.getElem?_map] at atIndex
    exact Option.map_eq_some_iff.mp atIndex
  · simp at found

/-- In a registry of distinct names a declaration is found under its name. -/
theorem find?_of_getElem? {registry : Registry} (distinct : registry.names.Nodup) {id : TypeId}
    {declaration : Declaration} (found : registry.declarations[id]? = some declaration) :
    registry.find? declaration.name = some id := by
  have atIndex : registry.names[id]? = some declaration.name := by
    rw [names, List.getElem?_map, found]
    rfl
  obtain ⟨inRange, named⟩ := List.getElem?_eq_some_iff.mp atIndex
  rw [find?_eq, if_pos (List.mem_of_getElem? atIndex), ← named, distinct.idxOf_getElem]

/-- An id has the name of its declaration. -/
theorem nameOf_eq_ok_iff {registry : Registry} {id : TypeId} {name : String} :
    registry.nameOf id = .ok name ↔
      ∃ declaration, registry.declarations[id]? = some declaration ∧ declaration.name = name := by
  rw [nameOf, get]
  cases registry.declarations[id]? <;> simp [Except.map]

section Bare

variable (registry : Registry)

/-- The shell of a declaration stands where the declaration stands. -/
theorem getElem?_bare (id : TypeId) :
    registry.bare.declarations[id]? = registry.declarations[id]?.map Declaration.bare := by
  simp [bare]

/-- To drop contents drops no declaration. -/
@[simp] theorem size_bare : registry.bare.size = registry.size := by
  simp [bare, size]

/-- Dropping the contents of declarations keeps all names. -/
@[simp] theorem names_bare : registry.bare.names = registry.names := by
  simp [bare, names, Function.comp_def]

/-- Names are found by the shells. -/
@[simp] theorem find?_bare (name : String) : registry.bare.find? name = registry.find? name := by
  rw [find?_eq, find?_eq, names_bare]

/-- An id is looked up alike, but for the contents. -/
theorem get_bare (id : TypeId) : registry.bare.get id = (registry.get id).map Declaration.bare := by
  rw [get, get, getElem?_bare]
  cases registry.declarations[id]? <;> rfl

/-- Ids have their names by the shells. -/
@[simp] theorem nameOf_bare (id : TypeId) : registry.bare.nameOf id = registry.nameOf id := by
  rw [nameOf, nameOf, get_bare]
  cases registry.get id <;> simp [Except.map]

/-- Dropping the contents of declarations keeps the names of scopes. -/
@[simp] theorem scopeName_bare (scope : Option TypeId) :
    registry.bare.scopeName scope = registry.scopeName scope := by
  cases scope <;> simp [scopeName]

/-- Dropping the contents of declarations keeps the names of the records around one. -/
@[simp] theorem namesOutward_bare (depth : Nat) (id : TypeId) :
    registry.bare.namesOutward depth id = registry.namesOutward depth id := by
  induction depth generalizing id with
  | zero => rfl
  | succ depth ih =>
    rw [namesOutward, namesOutward, getElem?_bare]
    cases registry.declarations[id]? with
    | none => rfl
    | some declaration =>
      simp only [Option.map_some, Declaration.name_bare, Declaration.parent_bare]
      cases declaration.parent with
      | none => rfl
      | some parent => simp only [ih]

/-- References are resolved by the shells. -/
@[simp] theorem resolve_bare (scope : Option TypeId) (reference : String) :
    registry.bare.resolve scope reference = registry.resolve scope reference := by
  have found : registry.bare.find? = registry.find? := funext (find?_bare registry)
  have tried : registry.bare.candidates scope reference = registry.candidates scope reference := by
    cases scope <;> simp [candidates]
  rw [resolve, resolve, scopeName_bare, found, tried]

/-- The type of a declaration is read off its shell. -/
@[simp] theorem typeOf_bare (id : TypeId) : registry.bare.typeOf id = registry.typeOf id := by
  rw [typeOf, typeOf, get_bare]
  cases registry.get id with
  | error error => rfl
  | ok declaration => cases declaration <;> rfl

/-- Dropping the contents of declarations keeps how a type is represented. -/
@[simp] theorem kindFor_bare (type : SchemaType) :
    registry.bare.kindFor type = registry.kindFor type := by
  cases type <;> simp [kindFor]

/-- Dropping the contents of declarations keeps what a name denotes. -/
@[simp] theorem typeNamed_bare (scope : Option TypeId) (name : String) :
    registry.bare.typeNamed scope name = registry.typeNamed scope name := by
  simp [typeNamed]

end Bare

/-- The records of a path stand inside one another in the registry, and the scope is the
innermost of them. -/
def Stands (registry : Registry) : List String → Option TypeId → Prop
  | [], scope => scope = none
  | record :: outer, scope =>
    ∃ id declaration, scope = some id ∧ registry.declarations[id]? = some declaration ∧
      declaration.name = Name.inside outer record ∧ registry.Stands outer declaration.parent

/-- Every declaration is registered behind the record that it stands in. -/
def ParentsPrecede (registry : Registry) : Prop :=
  ∀ (id : TypeId) (declaration : Declaration) (parent : TypeId),
    registry.declarations[id]? = some declaration → declaration.parent = some parent → parent < id

section Stands

variable {registry : Registry}

/-- A scope at the end of a path has the name that the path spells. -/
theorem scopeName_of_stands {path : List String} {scope : Option TypeId}
    (stands : registry.Stands path scope) : registry.scopeName scope = .ok (Name.ofPath? path) := by
  cases path with
  | nil =>
    cases stands
    rfl
  | cons record outer =>
    obtain ⟨id, declaration, rfl, found, named, _⟩ := stands
    rw [scopeName, nameOf_eq_ok_iff.mpr ⟨declaration, found, named⟩]
    rfl

/-- A record stands no deeper than there are declarations in front of it. -/
private theorem length_le_of_stands (precede : registry.ParentsPrecede) {path : List String}
    {id : TypeId} (stands : registry.Stands path (some id)) : path.length ≤ id + 1 := by
  induction path generalizing id with
  | nil => simp
  | cons record outer ih =>
    obtain ⟨_, declaration, same, found, _, around⟩ := stands
    cases same
    cases parent : declaration.parent with
    | none =>
      rw [parent] at around
      cases outer with
      | nil => simp
      | cons => simp [Stands] at around
    | some around' =>
      rw [parent] at around
      have earlier := precede id declaration around' found parent
      exact Nat.succ_le_succ ((ih around).trans earlier)

/-- The names that a reference may stand for are read off the path of its scope. -/
private theorem map_namesOutward {path : List String} {id : TypeId} {depth : Nat}
    (stands : registry.Stands path (some id)) (enough : path.length ≤ depth) (reference : String) :
    (registry.namesOutward depth id).map (Name.within · reference) ++ [reference] =
      Name.candidates path reference := by
  induction path generalizing id depth with
  | nil => simp [Stands] at stands
  | cons record outer ih =>
    obtain ⟨_, declaration, same, found, named, around⟩ := stands
    cases same
    cases depth with
    | zero => simp at enough
    | succ depth =>
      rw [namesOutward, found]
      simp only [named, List.map_cons, List.cons_append, Name.candidates_cons, Name.inside]
      congr 1
      cases parent : declaration.parent with
      | none =>
        rw [parent] at around
        cases outer with
        | nil => rfl
        | cons => simp [Stands] at around
      | some outerId =>
        rw [parent] at around
        exact ih around (by simpa using enough)

/-- A reference tries the names that its path makes possible. -/
theorem candidates_of_stands (precede : registry.ParentsPrecede) {path : List String}
    {scope : Option TypeId} (stands : registry.Stands path scope) (reference : String) :
    registry.candidates scope reference = Name.candidates path reference := by
  cases path with
  | nil =>
    cases stands
    rfl
  | cons record outer =>
    have ⟨id, declaration, same, found, _⟩ := stands
    subst same
    obtain ⟨inRange, _⟩ := List.getElem?_eq_some_iff.mp found
    have bounded := length_le_of_stands precede stands
    exact map_namesOutward stands (by rw [size]; omega) reference

/-- A reference denotes the first of its candidates that is registered. -/
theorem resolve_of_stands (precede : registry.ParentsPrecede) {path : List String}
    {scope : Option TypeId} (stands : registry.Stands path scope) (reference : String) :
    registry.resolve scope reference =
      match (Name.candidates path reference).find? (· ∈ registry.names) with
      | some name => .ok (registry.names.idxOf name)
      | none => .error (.typeNotFound reference (Name.ofPath? path)) := by
  have first (tried : List String) : tried.findSome? registry.find? =
      (tried.find? (· ∈ registry.names)).map registry.names.idxOf := by
    induction tried with
    | nil => rfl
    | cons name rest ih =>
      rw [List.findSome?_cons, find?_eq]
      by_cases listed : name ∈ registry.names <;> simp [listed, ih]
  rw [resolve, scopeName_of_stands stands, candidates_of_stands precede stands, first]
  cases (Name.candidates path reference).find? (· ∈ registry.names) <;> rfl

end Stands

end Registry

end SchemaGraph
