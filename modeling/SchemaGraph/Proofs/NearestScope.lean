import Mathlib.Data.List.Infix
import SchemaGraph.Proofs.Coherence

/-!
# References resolve in the nearest scope

The name of a declared type is the path to it, and the names of the records around it are the
shorter paths. A reference from inside the type is tried behind each of these names, the longest
one first, and then by itself. The walk goes from parent to parent and not along the name, but as
long as no local name has a dot the two agree, whatever the builtin types are called.
-/

namespace SchemaGraph

namespace Name

/-- The segments of a qualified name, which stand between its dots. -/
def segments (qualified : String) : List String :=
  (qualified.toList.splitOn '.').map String.ofList

/-- Segments with dots between them. -/
def joined (segments : List String) : String :=
  ".".intercalate segments

/-- A qualified name and those of the records around it, the longest one first. -/
def prefixes (qualified : String) : List String :=
  (segments qualified).inits.tail.reverse.map joined

/-- The names of a scope and of the records around it. -/
def scopes : Option String → List String
  | none => []
  | some scope => prefixes scope

/-- The names that a reference may stand for inside a scope: behind the name of the scope, behind
each shorter one, and by itself. -/
def readings (around : Option String) (reference : String) : List String :=
  (scopes around).map (within · reference) ++ [reference]

/-- A name is recovered from its segments. -/
theorem joined_segments (qualified : String) : joined (segments qualified) = qualified := by
  rw [← String.toList_inj, joined, String.toList_intercalate, segments, List.map_map]
  simp [Function.comp_def]

/-- A text without dots is its only segment. -/
theorem segments_of_dotFree {localName : String} (free : DotFree localName) :
    segments localName = [localName] := by
  rw [segments, List.splitOn_eq_singleton free, List.map_singleton, String.ofList_toList]

/-- A local name is one more segment. -/
theorem segments_within {localName : String} (free : DotFree localName) (scope : String) :
    segments (within scope localName) = segments scope ++ [localName] := by
  have chars : (within scope localName).toList = scope.toList ++ '.' :: localName.toList := by
    simp [within, String.toList_append]
  rw [← segments_of_dotFree free, segments, segments, segments, chars,
    List.splitOn_append_cons_self, List.map_append]

/-- A local name is the only prefix of itself. -/
theorem prefixes_of_dotFree {localName : String} (free : DotFree localName) :
    prefixes localName = [localName] := by
  simp [prefixes, segments_of_dotFree free, joined]

/-- What is declared inside a scope has the names around the scope around it, and that of the scope
itself. -/
theorem prefixes_within {localName : String} (free : DotFree localName) (scope : String) :
    prefixes (within scope localName) = within scope localName :: prefixes scope := by
  have whole : joined (segments scope ++ [localName]) = within scope localName := by
    rw [← segments_within free, joined_segments]
  have shorter : (segments scope).inits ≠ [] :=
    List.ne_nil_of_mem ((List.mem_inits _ _).mpr List.nil_prefix)
  rw [prefixes, segments_within free, List.inits_append]
  simp [List.tail_append_of_ne_nil shorter, whole, prefixes]

end Name

/-- The kind of a declaration decides whether it comes from a schema. -/
theorem Declaration.isUser_of_kind {declaration other : Declaration}
    (same : declaration.kind = other.kind) : declaration.isUser = other.isUser := by
  cases declaration <;> cases other <;> first | rfl | cases same

namespace Registry

/-- The registries that begin with builtin types of any names and grow by records and enumerations
under local names without dots. What is refused leaves the registry as it is. -/
inductive Declared : Registry → Prop
  | builtins {primitives : List String} {blob : String} {registry : Registry}
      (registered : withBuiltins primitives blob = .ok registry) : Declared registry
  | record {registry : Registry} (before : Declared registry) (parent : Option TypeId)
      {localName : String} (free : Name.DotFree localName) :
      Declared (registry.perform (.registerRecord parent localName)).2
  | enumeration {registry : Registry} (before : Declared registry) (parent : Option TypeId)
      {localName : String} (free : Name.DotFree localName) :
      Declared (registry.perform (.registerEnumeration parent localName)).2

/-- A registry made by registrations under local names is coherent. -/
theorem Declared.coherent {registry : Registry} (declared : registry.Declared) :
    registry.Coherent := by
  induction declared with
  | builtins registered => exact coherent_of_withBuiltins registered
  | record _ parent _ ih => exact ih.perform (.registerRecord parent _)
  | enumeration _ parent _ ih => exact ih.perform (.registerEnumeration parent _)

/-- The declaration has a local name without dots inside its parent. -/
def NamedInside (registry : Registry) (declaration : Declaration) : Prop :=
  ∃ localName, Name.DotFree localName ∧
    registry.qualify declaration.parent localName = .ok declaration.name

/-- All declared types have local names without dots. -/
def NamedByPaths (registry : Registry) : Prop :=
  ∀ (id : TypeId) (declaration : Declaration), registry.declarations[id]? = some declaration →
    declaration.isUser = true → registry.NamedInside declaration

section Growth

variable {registry grown : Registry}

/-- Inside a declaration a name is qualified with the name of the declaration. -/
theorem qualify_some_eq_ok_iff {id : TypeId} {localName qualified : String} :
    registry.qualify (some id) localName = .ok qualified ↔ ∃ outer,
      registry.declarations[id]? = some outer ∧ Name.within outer.name localName = qualified := by
  rw [qualify, scopeName, nameOf, get]
  cases registry.declarations[id]? <;> simp [Except.map]

/-- A name that is qualified once is qualified in the same way later on. -/
theorem Keeps.qualify (keeps : registry.Keeps grown) {parent : Option TypeId}
    {localName qualified : String} (before : registry.qualify parent localName = .ok qualified) :
    grown.qualify parent localName = .ok qualified := by
  cases parent with
  | none => exact before
  | some id =>
    obtain ⟨outer, found, rfl⟩ := qualify_some_eq_ok_iff.mp before
    obtain ⟨kept, atId, same, _⟩ := keeps.names id outer found
    exact qualify_some_eq_ok_iff.mpr ⟨kept, atId, by rw [same]⟩

/-- A declaration that is named inside its parent is registered among others that are. -/
theorem NamedByPaths.register (named : registry.NamedByPaths) {declaration : Declaration}
    {newId : TypeId} (inside : registry.NamedInside declaration)
    (success : registry.register declaration = .ok (newId, grown)) : grown.NamedByPaths := by
  have keeps := keeps_of_register success
  intro id found atId user
  rcases getElem?_of_register success atId with ⟨_, rfl⟩ | ⟨earlier, before, rfl⟩
  · obtain ⟨localName, free, qualified⟩ := inside
    exact ⟨localName, free, keeps.qualify qualified⟩
  · -- A new child changes neither the name of a declaration nor its parent.
    obtain ⟨kept, keptFound, name, kind, parent⟩ := keeps.names id earlier before
    obtain rfl := Option.some.inj (keptFound.symm.trans atId)
    obtain ⟨localName, free, qualified⟩ :=
      named id earlier before ((Declaration.isUser_of_kind kind).symm.trans user)
    exact ⟨localName, free, by rw [name, parent]; exact keeps.qualify qualified⟩

/-- What is registered under a local name without dots is named inside its parent, and a refusal
changes nothing. -/
theorem NamedByPaths.shell (named : registry.NamedByPaths) (parent : Option TypeId)
    {localName : String} (free : Name.DotFree localName) {shell : String → Declaration}
    (placed : ∀ name, (shell name).name = name ∧ (shell name).parent = parent) :
    (registry.settle (match registry.qualify parent localName with
      | .ok name => registry.register (shell name)
      | .error error => .error error)).2.NamedByPaths := by
  cases qualified : registry.qualify parent localName with
  | error error => exact named
  | ok name =>
    have inside : registry.NamedInside (shell name) :=
      ⟨localName, free, by rw [(placed name).1, (placed name).2, qualified]⟩
    cases result : registry.register (shell name) with
    | error error => simpa only [result, settle] using named
    | ok registered => simpa only [result, settle] using named.register inside result

/-- However a registry has come about, its declared types are named inside their parents. -/
theorem Declared.namedByPaths (declared : registry.Declared) : registry.NamedByPaths := by
  induction declared with
  | @builtins primitives blob registry registered =>
    have listed : registry.declarations = Settings.builtins ⟨false, false, primitives, blob⟩ :=
      congrArg Registry.declarations (withBuiltins_eq_ok_iff.mp registered).2
    intro id declaration found user
    have builtin := Settings.isUser_builtins (listed ▸ List.mem_of_getElem? found)
    simp [builtin] at user
  | record _ parent free ih => exact ih.shell parent free fun _ => ⟨rfl, rfl⟩
  | enumeration _ parent free ih => exact ih.shell parent free fun _ => ⟨rfl, rfl⟩

end Growth

section Scopes

variable {registry : Registry}

/-- A scope and the name that an error has for it: none outside of all records, or a declared
type. -/
inductive IsScope (registry : Registry) : Option TypeId → Option String → Prop
  | outermost : IsScope registry none none
  | inside {id : TypeId} {declaration : Declaration}
      (found : registry.declarations[id]? = some declaration)
      (user : declaration.isUser = true) : IsScope registry (some id) (some declaration.name)

/-- The id is that of the first of the names that is registered. -/
def IsFirst (registry : Registry) (names : List String) (id : TypeId) : Prop :=
  ∃ front name behind, names = front ++ name :: behind ∧ registry.names[id]? = some name ∧
    ∀ earlier ∈ front, earlier ∉ registry.names

/-- The name of a declared type is in front of the names of the scope that it is declared in. -/
theorem exists_scope_around (coherent : registry.Coherent) (named : registry.NamedByPaths)
    {id : TypeId} {declaration : Declaration}
    (found : registry.declarations[id]? = some declaration) (user : declaration.isUser = true) :
    ∃ around, registry.IsScope declaration.parent around ∧
      Name.prefixes declaration.name = declaration.name :: Name.scopes around := by
  obtain ⟨localName, free, qualified⟩ := named id declaration found user
  cases parent : declaration.parent with
  | none =>
    rw [parent] at qualified
    obtain rfl : localName = declaration.name := Except.ok.inj qualified
    exact ⟨none, .outermost, Name.prefixes_of_dotFree free⟩
  | some outerId =>
    rw [parent] at qualified
    obtain ⟨outer, outerFound, same⟩ := qualify_some_eq_ok_iff.mp qualified
    obtain ⟨⟨record, isRecord⟩, _⟩ := coherent.parents id declaration outerId found parent
    obtain rfl := Option.some.inj (isRecord.symm.trans outerFound)
    exact ⟨_, .inside outerFound rfl, by rw [← same, Name.prefixes_within free, Name.scopes]⟩

/-- The walk from parent to parent passes the names that the qualified name begins with. It ends
by itself, since parents have smaller ids. -/
theorem namesOutward_eq (coherent : registry.Coherent) (named : registry.NamedByPaths)
    {id : TypeId} {declaration : Declaration}
    (found : registry.declarations[id]? = some declaration) (user : declaration.isUser = true)
    {depth : Nat} (enough : id < depth) :
    registry.namesOutward depth id = Name.prefixes declaration.name := by
  induction depth generalizing id declaration with
  | zero => simp at enough
  | succ depth ih =>
    obtain ⟨around, scope, names⟩ := exists_scope_around coherent named found user
    rw [namesOutward, found, names]
    generalize parent : declaration.parent = outer at scope
    cases scope with
    | outermost => simp [parent, Name.scopes]
    | @inside outerId outer outerFound outerUser =>
      have earlier := (coherent.parents id declaration outerId found parent).2
      have shallower : outerId < depth := Nat.lt_of_lt_of_le earlier (Nat.le_of_lt_succ enough)
      simp only [parent, Name.scopes, ih outerFound outerUser shallower]

/-- A scope has the name that is given for it. -/
theorem IsScope.scopeName_eq {scope : Option TypeId} {around : Option String}
    (isScope : registry.IsScope scope around) : registry.scopeName scope = .ok around := by
  cases isScope with
  | outermost => rfl
  | inside found user =>
    rw [scopeName, nameOf_eq_ok_iff.mpr ⟨_, found, rfl⟩]
    rfl

/-- What a reference tries depends on the name of its scope only. -/
theorem IsScope.candidates_eq (coherent : registry.Coherent) (named : registry.NamedByPaths)
    {scope : Option TypeId} {around : Option String} (isScope : registry.IsScope scope around)
    (reference : String) :
    registry.candidates scope reference = Name.readings around reference := by
  cases isScope with
  | outermost => rfl
  | inside found user =>
    have inRange := (List.getElem?_eq_some_iff.mp found).1
    rw [candidates, size, namesOutward_eq coherent named found user inRange, Name.readings,
      Name.scopes]

/-- In a registry of distinct names a name is found exactly where it stands. -/
theorem find?_eq_some_iff (distinct : registry.names.Nodup) {name : String} {id : TypeId} :
    registry.find? name = some id ↔ registry.names[id]? = some name := by
  rw [names, List.getElem?_map, Option.map_eq_some_iff]
  constructor
  · exact name_of_find?
  · rintro ⟨declaration, found, rfl⟩
    exact find?_of_getElem? distinct found

/-- Nothing is found exactly under the names that are not registered. -/
theorem find?_eq_none_iff {name : String} :
    registry.find? name = none ↔ name ∉ registry.names := by
  rw [find?_eq]
  split <;> simp_all

/-- What is found is the first of the names that is registered. -/
theorem findSome?_eq_some_iff (distinct : registry.names.Nodup) {names : List String}
    {id : TypeId} : names.findSome? registry.find? = some id ↔ registry.IsFirst names id := by
  simp only [List.findSome?_eq_some_iff, find?_eq_some_iff distinct, find?_eq_none_iff, IsFirst]

/-- A name that is not registered makes no difference in front of others. -/
theorem isFirst_cons_iff (distinct : registry.names.Nodup) {name : String} {names : List String}
    {id : TypeId} (absent : name ∉ registry.names) :
    registry.IsFirst (name :: names) id ↔ registry.IsFirst names id := by
  rw [← findSome?_eq_some_iff distinct, ← findSome?_eq_some_iff distinct, List.findSome?_cons,
    find?_eq_none_iff.mpr absent]

/-- Nothing is found exactly if none of the names is registered. -/
theorem findSome?_eq_none_iff {names : List String} :
    names.findSome? registry.find? = none ↔ ∀ name ∈ names, name ∉ registry.names := by
  simp only [List.findSome?_eq_none_iff, find?_eq_none_iff]

end Scopes

/-- In a registry of builtin types of any names and of declarations under local names without dots,
a reference denotes what is registered under the first of the names that its scope makes possible:
behind the name of the scope, behind the names that it begins with, the longest first, and by
itself. If there is none, the error has the reference and the name of the scope. The walk outward
ends by itself, after no more turns than there are declarations in front, and a name that is not
declared in the scope itself denotes in it what it denotes around it. -/
theorem resolve_nearest {registry : Registry} (declared : registry.Declared)
    {scope : Option TypeId} {around : Option String} (isScope : registry.IsScope scope around)
    (reference : String) :
    (∀ id, registry.resolve scope reference = .ok id ↔
      registry.IsFirst (Name.readings around reference) id) ∧
    (∀ error, registry.resolve scope reference = .error error ↔
      (∀ name ∈ Name.readings around reference, name ∉ registry.names) ∧
        error = .typeNotFound reference around) ∧
    ∀ id declaration, scope = some id → registry.declarations[id]? = some declaration →
      (∀ depth, id < depth → registry.namesOutward depth id = Name.prefixes declaration.name) ∧
      (Name.within declaration.name reference ∉ registry.names → ∀ target,
        registry.resolve scope reference = .ok target ↔
          registry.resolve declaration.parent reference = .ok target) := by
  have coherent := declared.coherent
  have named := declared.namedByPaths
  have succeeds {scope : Option TypeId} {around : Option String}
      (isScope : registry.IsScope scope around) (id : TypeId) :
      registry.resolve scope reference = .ok id ↔
        registry.IsFirst (Name.readings around reference) id := by
    rw [resolve, isScope.scopeName_eq, isScope.candidates_eq coherent named,
      ← findSome?_eq_some_iff coherent.distinct]
    cases (Name.readings around reference).findSome? registry.find? <;> simp
  refine ⟨succeeds isScope, fun error => ?_, fun id declaration same found => ?_⟩
  · rw [resolve, isScope.scopeName_eq, isScope.candidates_eq coherent named,
      ← findSome?_eq_none_iff]
    cases (Name.readings around reference).findSome? registry.find? <;> simp [eq_comm]
  · subst same
    cases isScope with
    | inside foundHere user =>
      obtain rfl := Option.some.inj (foundHere.symm.trans found)
      refine ⟨fun depth enough => namesOutward_eq coherent named found user enough,
        fun absent target => ?_⟩
      obtain ⟨outer, outerScope, names⟩ := exists_scope_around coherent named found user
      rw [succeeds (.inside found user), succeeds outerScope, Name.readings, Name.scopes, names,
        List.map_cons, List.cons_append, isFirst_cons_iff coherent.distinct absent, Name.readings]

/-- Orders with items, two enumerations of one local name, and a builtin type that is named as if it
stood in an order. -/
def shadowed : Registry :=
  performAll ⟨[.primitive "int", .primitive "Order.key", .blob "blob"]⟩
    [.registerRecord none "Order", .registerRecord (some 3) "Item",
      .registerEnumeration none "Status", .registerEnumeration (some 3) "Status"]

/-- A nested type hides the outer one of its local name, and a dotted builtin name hides nothing. -/
theorem resolve_nearest_shadowed :
    shadowed.Declared ∧ shadowed.IsScope (some 4) (some "Order.Item") ∧
      shadowed.resolve (some 4) "Status" = .ok 6 ∧ shadowed.resolve (some 4) "key" = .ok 1 ∧
      shadowed.resolve (some 4) "Order.Item" = .ok 4 ∧
      shadowed.resolve (some 4) "Total" = .error (.typeNotFound "Total" (some "Order.Item")) ∧
      shadowed.resolve (some 3) "key" = .ok 1 := by
  have registered : withBuiltins ["int", "Order.key"] "blob" =
      .ok ⟨[.primitive "int", .primitive "Order.key", .blob "blob"]⟩ := by decide
  have declared : shadowed.Declared :=
    .enumeration (.enumeration (.record (.record (.builtins registered) none
      (by simp [Name.DotFree])) (some 3) (by simp [Name.DotFree])) none (by simp [Name.DotFree]))
      (some 3) (by simp [Name.DotFree])
  have item : shadowed.IsScope (some 4) (some "Order.Item") :=
    .inside (show shadowed.declarations[4]? =
      some (.record (RecordType.shell "Order.Item" (some 3))) from rfl) rfl
  have key : shadowed.resolve (some 4) "key" = .ok 1 :=
    ((resolve_nearest declared item "key").1 1).mpr
      ⟨["Order.Item.key"], "Order.key", ["key"], by decide, by decide, by decide⟩
  refine ⟨declared, item, ((resolve_nearest declared item "Status").1 6).mpr
      ⟨["Order.Item.Status"], "Order.Status", ["Status"], by decide, by decide, by decide⟩, key,
    ((resolve_nearest declared item "Order.Item").1 4).mpr
      ⟨["Order.Item.Order.Item", "Order.Order.Item"], "Order.Item", [], by decide, by decide,
        by decide⟩,
    ((resolve_nearest declared item "Total").2.1 _).mpr ⟨by decide, rfl⟩,
    (((resolve_nearest declared item "key").2.2 4 _ rfl rfl).2 (by decide) 1).mp key⟩

end Registry

end SchemaGraph
