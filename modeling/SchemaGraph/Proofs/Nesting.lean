import Mathlib.Logic.Relation
import SchemaGraph.Outline
import SchemaGraph.Proofs.ClosedGraph
import SchemaGraph.Proofs.Decoration

/-!
# Nesting

In a coherent registry the children that are listed are what the declarations say about their
parents, so a declaration stands directly inside one scope, and everything else is settled by this
relation: what is nested in a record at any level, and which records are around a declaration. As
parents come first, nesting goes up in the order of registration. The registries that a compile
returns are coherent too.
-/

namespace SchemaGraph

open Node Registry Relation

/-! ### Compiled registries are coherent -/

/-- Shells are fresh when they are registered. -/
theorem isFresh_emptyShell (kind : NodeKind) (name : String) (parent : Option TypeId) :
    (emptyShell kind name parent).IsFresh := by
  unfold emptyShell
  split
  · exact .record name parent
  · exact .enumeration name parent

/-- Coherence outlives any attempts. -/
theorem Run.coherent {registry done : Registry} {log : List Attempt}
    (run : Run registry log done) (coherent : registry.Coherent) : done.Coherent := by
  induction run with
  | nil => exact coherent
  | registered registers _ _ ih =>
    exact ih (coherent.register (isFresh_emptyShell _ _ _) registers.success)
  | skipped _ _ _ ih => exact ih coherent

/-- The first pass hands a coherent registry to the second. -/
theorem Shells.coherent_ofSchema {builtins : Registry} (coherent : builtins.Coherent)
    (schema : Schema) : (ofSchema builtins schema).registry.Coherent := by
  obtain ⟨done, walk⟩ := walk_attempts schema (hasScope_none builtins)
  rw [ofSchema, walk.declareAll_eq]
  exact walk.run.coherent coherent

/-- The second pass leaves the links of the shells and designates only properties that exist. -/
theorem coherent_of_result {settings : Settings} {moment : Instant} {schema : Schema}
    {registry : Registry} (success : (compile settings moment schema).result = .ok registry) :
    registry.Coherent := by
  obtain ⟨builtins, contents, visited, rfl⟩ := result_eq_ok_iff.mp success
  have registered := withBuiltins_eq_ok_iff.mpr ⟨builtins, rfl⟩
  have sound := Shells.sound_ofSchema registered schema
  have same := Contents.bare_of_visitAll visited
  have shells := Shells.coherent_ofSchema (coherent_of_withBuiltins registered) schema
  refine shells.of_links (map_links_of_bare same) fun declaration listed => ?_
  obtain ⟨id, found⟩ := List.mem_iff_getElem?.mp listed
  obtain ⟨shell, atShell, bare⟩ := exists_getElem?_of_bare same.symm found
  obtain ⟨other, atId, filled⟩ := Contents.filled_of_visitAll sound.distinct sound.bare
    (Contents.knows_of_visitAll (knows_nil _) visited) visited atShell
  obtain rfl := Option.some.inj (found.symm.trans atId)
  cases declaration with
  | record record =>
    have user : shell.isUser = true := by
      rw [← Declaration.isUser_bare, bare]
      rfl
    exact (filled.closedIn user).2
  | _ => trivial

namespace Registry

/-! ### What stands inside what -/

/-- A declaration of a schema stands directly inside the scope. -/
def DeclaredIn (registry : Registry) (scope : Option TypeId) (id : TypeId) : Prop :=
  ∃ declaration, registry.declarations[id]? = some declaration ∧ declaration.isUser = true ∧
    declaration.parent = scope

/-- A declaration is nested in the outer one, at whatever level. -/
def Inside (registry : Registry) : TypeId → TypeId → Prop :=
  TransGen fun outer inner => registry.DeclaredIn (some outer) inner

/-- A declaration is the outer one or nested in it. -/
def Within (registry : Registry) : TypeId → TypeId → Prop :=
  ReflTransGen fun outer inner => registry.DeclaredIn (some outer) inner

/-- The records around a declaration, innermost first. -/
inductive Around (registry : Registry) : TypeId → List TypeId → Prop
  | top {id : TypeId} (declared : registry.DeclaredIn none id) : Around registry id []
  | nested {id outer : TypeId} {further : List TypeId}
      (declared : registry.DeclaredIn (some outer) id) (around : Around registry outer further) :
      Around registry id (outer :: further)

/-- The ids that a declaration lists as nested in it. -/
def nestedIds (registry : Registry) (id : TypeId) : List TypeId :=
  match registry.record? id with
  | some record => record.children
  | none => []

section Scopes

variable {registry : Registry}

/-- Only the declarations of users are nested. -/
theorem isUser_of_parent {declaration : Declaration} {outer : TypeId}
    (nested : declaration.parent = some outer) : declaration.isUser = true := by
  cases declaration with
  | record | enumeration => rfl
  | _ => simp [Declaration.parent] at nested

/-- What is declared somewhere has an id of the registry. -/
theorem DeclaredIn.lt_size {scope : Option TypeId} {id : TypeId}
    (declared : registry.DeclaredIn scope id) : id < registry.size := by
  obtain ⟨_, found, _⟩ := declared
  exact (List.getElem?_eq_some_iff.mp found).1

/-- A declaration stands directly inside one scope. -/
theorem DeclaredIn.unique {scope other : Option TypeId} {id : TypeId}
    (first : registry.DeclaredIn scope id) (second : registry.DeclaredIn other id) :
    scope = other := by
  obtain ⟨declaration, found, _, rfl⟩ := first
  obtain ⟨_, same, _, rfl⟩ := second
  obtain rfl := Option.some.inj (found.symm.trans same)
  rfl

/-- The declarations of users are those that are declared somewhere. -/
theorem exists_declaredIn_iff {id : TypeId} :
    (∃ scope, registry.DeclaredIn scope id) ↔
      ∃ declaration, registry.declarations[id]? = some declaration ∧ declaration.isUser = true := by
  constructor
  · rintro ⟨_, declaration, found, user, _⟩
    exact ⟨declaration, found, user⟩
  · rintro ⟨declaration, found, user⟩
    exact ⟨_, declaration, found, user, rfl⟩

/-- The scope of a nested declaration is a declaration itself, and it comes first. -/
theorem Coherent.declaredIn_outer (coherent : registry.Coherent) {outer id : TypeId}
    (declared : registry.DeclaredIn (some outer) id) :
    outer < id ∧ ∃ scope, registry.DeclaredIn scope outer := by
  obtain ⟨declaration, found, _, nested⟩ := declared
  obtain ⟨⟨record, atOuter⟩, first⟩ := coherent.parents id declaration outer found nested
  exact ⟨first, exists_declaredIn_iff.mpr ⟨_, atOuter, rfl⟩⟩

/-- The nested ids of a record are those of the declarations in it. -/
theorem Coherent.mem_nestedIds (coherent : registry.Coherent) {outer id : TypeId} :
    id ∈ registry.nestedIds outer ↔ registry.DeclaredIn (some outer) id := by
  rw [nestedIds]
  constructor
  · intro listed
    split at listed
    · next record found =>
      obtain ⟨declaration, atId, nested⟩ :=
        ((coherent.children_record (record?_eq_some_iff.mp found)).2 id).mp listed
      exact ⟨declaration, atId, isUser_of_parent nested, nested⟩
    · simp at listed
  · rintro ⟨declaration, atId, _, nested⟩
    obtain ⟨⟨record, atOuter⟩, _⟩ := coherent.parents id declaration outer atId nested
    rw [record?_eq_some_iff.mpr atOuter]
    exact ((coherent.children_record atOuter).2 id).mpr ⟨declaration, atId, nested⟩

/-- Nested declarations are listed in the order of their registration. -/
theorem Coherent.nestedIds_increasing (coherent : registry.Coherent) (outer : TypeId) :
    (registry.nestedIds outer).Pairwise (· < ·) := by
  rw [nestedIds]
  split
  · next record found => exact (coherent.children_record (record?_eq_some_iff.mp found)).1
  · exact .nil

/-- The roots are the declarations of users that have no parent. -/
theorem roots_eq (registry : Registry) : registry.roots =
    registry.declarations.findIdxs fun declaration =>
      declaration.parent.isNone && declaration.isUser := by
  rw [roots, userTypes, List.filter_filter]
  exact registry.map_fst_filter_entries fun declaration =>
    declaration.parent.isNone && declaration.isUser

/-- The roots are the declarations at the top level. -/
theorem mem_roots {id : TypeId} : id ∈ registry.roots ↔ registry.DeclaredIn none id := by
  rw [roots_eq, List.mem_findIdxs_iff_exists_getElem_pos]
  constructor
  · rintro ⟨inRange, top⟩
    rw [Bool.and_eq_true, Option.isNone_iff_eq_none] at top
    exact ⟨_, List.getElem?_eq_getElem inRange, top.2, top.1⟩
  · rintro ⟨declaration, found, user, top⟩
    obtain ⟨inRange, rfl⟩ := List.getElem?_eq_some_iff.mp found
    exact ⟨inRange, by simp [user, top]⟩

/-- Roots are listed in the order of their registration. -/
theorem roots_increasing (registry : Registry) : registry.roots.Pairwise (· < ·) := by
  rw [roots_eq]
  exact List.pairwise_findIdxs

end Scopes

section Levels

variable {registry : Registry}

/-- What is inside a record is registered behind it. -/
theorem Coherent.lt_of_inside (coherent : registry.Coherent) {outer inner : TypeId}
    (inside : registry.Inside outer inner) : outer < inner := by
  induction inside with
  | single declared => exact (coherent.declaredIn_outer declared).1
  | tail _ declared ih => exact ih.trans (coherent.declaredIn_outer declared).1

/-- Within a declaration are the declaration itself and everything inside it. -/
theorem within_iff {outer inner : TypeId} :
    registry.Within outer inner ↔ inner = outer ∨ registry.Inside outer inner :=
  reflTransGen_iff_eq_or_transGen

/-- What is nested in a declaration is directly in it or nested in something that is. -/
theorem inside_iff_below {outer inner : TypeId} :
    registry.Inside outer inner ↔
      ∃ child, registry.DeclaredIn (some outer) child ∧ registry.Within child inner :=
  TransGen.head'_iff

/-- What is nested in a declaration is directly inside it or directly inside something nested in
it. -/
theorem inside_iff_above {outer inner : TypeId} :
    registry.Inside outer inner ↔
      ∃ around, registry.Within outer around ∧ registry.DeclaredIn (some around) inner :=
  TransGen.tail'_iff

/-- Two declarations directly inside one scope have nothing nested in common. -/
theorem Coherent.eq_of_within (coherent : registry.Coherent) {scope : Option TypeId}
    {first second id : TypeId} (inFirst : registry.DeclaredIn scope first)
    (inSecond : registry.DeclaredIn scope second) (belowFirst : registry.Within first id)
    (belowSecond : registry.Within second id) : first = second := by
  -- One of the two is within the other one. If it were nested there, it would be nested in its own
  -- scope at the same time.
  have apart {one other : TypeId} (inOne : registry.DeclaredIn scope one)
      (inOther : registry.DeclaredIn scope other) : ¬ registry.Inside one other := by
    intro inside
    obtain ⟨around, within, declared⟩ := inside_iff_above.mp inside
    obtain rfl := inOther.unique declared
    have before := (coherent.declaredIn_outer inOne).1
    rcases within_iff.mp within with rfl | further
    · exact Nat.lt_irrefl _ before
    · exact Nat.lt_asymm before (coherent.lt_of_inside further)
  have unique : Relator.RightUnique (Function.swap fun outer inner =>
      registry.DeclaredIn (some outer) inner) :=
    fun _ _ _ one other => Option.some.inj (one.unique other)
  rcases ReflTransGen.total_of_right_unique unique belowFirst.swap belowSecond.swap with
    within | within
  · rcases within_iff.mp within.swap with same | inside
    · exact same
    · exact absurd inside (apart inSecond inFirst)
  · rcases within_iff.mp within.swap with same | inside
    · exact same.symm
    · exact absurd inside (apart inFirst inSecond)

/-- Every declaration of a schema has its records around it. -/
theorem Coherent.exists_around (coherent : registry.Coherent) {scope : Option TypeId} {id : TypeId}
    (declared : registry.DeclaredIn scope id) : ∃ around, registry.Around id around := by
  induction id using Nat.strong_induction_on generalizing scope with
  | _ id ih =>
    cases scope with
    | none => exact ⟨[], .top declared⟩
    | some outer =>
      obtain ⟨first, _, declaredOuter⟩ := coherent.declaredIn_outer declared
      obtain ⟨further, around⟩ := ih outer first declaredOuter
      exact ⟨outer :: further, .nested declared around⟩

/-- The records around a declaration are those that it is nested in. -/
theorem Around.mem_iff {id outer : TypeId} {around : List TypeId}
    (isAround : registry.Around id around) : outer ∈ around ↔ registry.Inside outer id := by
  induction isAround with
  | top declared =>
    refine ⟨fun listed => by simp at listed, fun inside => ?_⟩
    obtain ⟨_, _, nested⟩ := inside_iff_above.mp inside
    simpa using declared.unique nested
  | @nested id direct further declared _ ih =>
    have directly : registry.Inside outer id ↔ registry.Within outer direct := by
      rw [inside_iff_above]
      constructor
      · rintro ⟨other, within, nested⟩
        rwa [Option.some.inj (declared.unique nested)]
      · exact fun within => ⟨direct, within, declared⟩
    rw [directly, within_iff, List.mem_cons, ih, eq_comm]

/-- No record lies around a declaration twice. -/
theorem Coherent.nodup_around (coherent : registry.Coherent) {id : TypeId} {around : List TypeId}
    (isAround : registry.Around id around) : around.Nodup := by
  induction isAround with
  | top => exact .nil
  | nested _ further ih =>
    refine List.nodup_cons.mpr ⟨fun listed => ?_, ih⟩
    exact Nat.lt_irrefl _ (coherent.lt_of_inside (further.mem_iff.mp listed))

/-- The outermost of the records around a declaration is a root. -/
theorem Around.exists_root {id : TypeId} {around : List TypeId}
    (isAround : registry.Around id around) :
    ∃ root, registry.DeclaredIn none root ∧ registry.Within root id := by
  induction isAround with
  | top declared => exact ⟨_, declared, .refl⟩
  | nested declared _ ih =>
    obtain ⟨root, top, within⟩ := ih
    exact ⟨root, top, within.tail declared⟩

/-- Whatever is within a declared declaration is declared somewhere. -/
theorem Within.exists_scope {outer inner : TypeId} (within : registry.Within outer inner)
    (declared : ∃ scope, registry.DeclaredIn scope outer) :
    ∃ scope, registry.DeclaredIn scope inner := by
  induction within with
  | refl => exact declared
  | tail _ nested _ => exact ⟨_, nested⟩

end Levels

end Registry

end SchemaGraph
