import SchemaGraph.Proofs.Attempts

/-!
# The places of the attempts

An address leads to a node by the indices of the trees on the way, so the lexicographic order of
addresses is the order of the document. The attempts of the first pass come in this order. They
are made at all declarations but those inside of a declaration that is skipped, and each is made
inside the record that encloses its place, if that was registered.
-/

namespace SchemaGraph

open Node Registry

namespace Node

/-- The node at an address below a node: the address holds the index of a child for each step. -/
def below? : List Nat → Node → Option Node
  | [], node => some node
  | index :: inner, node => node.children[index]?.bind (below? inner)

/-- The node at an address among trees that stand side by side. -/
def nodeAt? (nodes : List Node) : List Nat → Option Node
  | [] => none
  | index :: inner => nodes[index]?.bind (below? inner)

/-- An address that begins behind the first node is one among the rest. -/
theorem nodeAt?_succ (node : Node) (rest : List Node) (index : Nat) (inner : List Nat) :
    nodeAt? (node :: rest) ((index + 1) :: inner) = nodeAt? rest (index :: inner) := rfl

/-- An address below a node is one among its children. -/
theorem below?_cons (node : Node) (index : Nat) (inner : List Nat) :
    below? (index :: inner) node = nodeAt? node.children (index :: inner) := rfl

/-- An address leads to the first tree, below it, or to the trees behind it. -/
theorem nodeAt?_cons {node found : Node} {rest : List Node} {address : List Nat}
    (atAddress : nodeAt? (node :: rest) address = some found) :
    (address = [0] ∧ found = node) ∨
      (∃ inner, address = 0 :: inner ∧ nodeAt? node.children inner = some found) ∨
      ∃ index inner, address = (index + 1) :: inner ∧
        nodeAt? rest (index :: inner) = some found :=
  match address with
  | [] => by simp [nodeAt?] at atAddress
  | [0] => .inl ⟨rfl, (Option.some.inj atAddress).symm⟩
  | 0 :: index :: inner => .inr (.inl ⟨index :: inner, rfl, atAddress⟩)
  | (index + 1) :: inner => .inr (.inr ⟨index, inner, rfl, atAddress⟩)

end Node

namespace Attempt

/-- The attempt is made at a declaration of the trees that has a child. -/
structure Located (nodes : List Node) (attempt : Attempt) : Prop where
  found : nodeAt? nodes attempt.address = some attempt.node
  declares : attempt.node.declares = true
  children : attempt.node.children ≠ []

/-- The attempt is made at a declaration at a node or below it. -/
structure LocatedBelow (node : Node) (attempt : Attempt) : Prop where
  found : below? attempt.address node = some attempt.node
  declares : attempt.node.declares = true
  children : attempt.node.children ≠ []

/-- A located attempt has been made at some node, so its address is not empty. -/
theorem Located.exists_address {nodes : List Node} {attempt : Attempt}
    (located : attempt.Located nodes) : ∃ index inner, attempt.address = index :: inner := by
  cases address : attempt.address with
  | nil =>
    have found := located.found
    simp [address, nodeAt?] at found
  | cons index inner => exact ⟨index, inner, rfl⟩

/-- What is located among the children is located below the node. -/
theorem Located.below {node : Node} {attempt : Attempt} (located : attempt.Located node.children) :
    attempt.LocatedBelow node := by
  obtain ⟨index, inner, address⟩ := located.exists_address
  exact ⟨by rw [address, below?_cons, ← address, located.found], located.declares,
    located.children⟩

/-- Attempts at the first node and at those behind it are located in the whole. -/
theorem located_beside {node : Node} {rest : List Node} {here behind : List Attempt}
    (locatedHere : ∀ attempt ∈ here, attempt.LocatedBelow node)
    (locatedBehind : ∀ attempt ∈ behind, attempt.Located rest) :
    ∀ attempt ∈ beside here behind, attempt.Located (node :: rest) := by
  intro attempt listed
  rcases mem_beside.mp listed with ⟨other, inside, rfl⟩ | ⟨other, inside, rfl⟩
  · obtain ⟨found, declares, children⟩ := locatedHere other inside
    exact ⟨found, declares, children⟩
  · have located := locatedBehind other inside
    obtain ⟨index, inner, address⟩ := located.exists_address
    refine ⟨?_, located.declares, located.children⟩
    rw [moved, address, List.modifyHead_cons, nodeAt?_succ, ← address, located.found]

/-- The attempts at a tree come in front of those at the trees behind it. -/
theorem ordered_beside {rest : List Node} {here behind : List Attempt}
    (orderedHere : here.Pairwise fun earlier later => earlier.address < later.address)
    (locatedBehind : ∀ attempt ∈ behind, attempt.Located rest)
    (orderedBehind : behind.Pairwise fun earlier later => earlier.address < later.address) :
    (beside here behind).Pairwise fun earlier later => earlier.address < later.address := by
  refine List.pairwise_append.mpr ⟨?_, ?_, ?_⟩
  · refine List.pairwise_map.mpr (orderedHere.imp fun before => ?_)
    exact List.cons_lt_cons_iff.mpr (.inr ⟨rfl, before⟩)
  · refine List.pairwise_map.mpr (orderedBehind.imp_of_mem fun listed listed' before => ?_)
    obtain ⟨index, inner, address⟩ := (locatedBehind _ listed).exists_address
    obtain ⟨index', inner', address'⟩ := (locatedBehind _ listed').exists_address
    rw [address, address', List.cons_lt_cons_iff] at before
    rw [moved, moved, address, address', List.modifyHead_cons, List.modifyHead_cons,
      List.cons_lt_cons_iff]
    exact before.imp Nat.succ_lt_succ fun same => ⟨congrArg (· + 1) same.1, same.2⟩
  · intro attempt first attempt' second
    obtain ⟨earlier, _, rfl⟩ := List.mem_map.mp first
    obtain ⟨later, listed, rfl⟩ := List.mem_map.mp second
    obtain ⟨index, inner, address⟩ := (locatedBehind later listed).exists_address
    rw [moved, moved, address, List.modifyHead_cons]
    exact List.cons_lt_cons_iff.mpr (.inl (Nat.succ_pos index))

/-- If nothing is attempted inside a skipped declaration on either side, nothing is in the whole. -/
theorem pruned_beside {rest : List Node} {here behind : List Attempt}
    (prunedHere : ∀ outer ∈ here, outer.skip?.isSome → ∀ attempt ∈ here,
      outer.address <+: attempt.address → outer.address = attempt.address)
    (locatedBehind : ∀ attempt ∈ behind, attempt.Located rest)
    (prunedBehind : ∀ outer ∈ behind, outer.skip?.isSome → ∀ attempt ∈ behind,
      outer.address <+: attempt.address → outer.address = attempt.address) :
    ∀ outer ∈ beside here behind, outer.skip?.isSome → ∀ attempt ∈ beside here behind,
      outer.address <+: attempt.address → outer.address = attempt.address := by
  intro _ listed skipped _ inside before
  rcases mem_beside.mp listed with ⟨first, atFirst, rfl⟩ | ⟨first, atFirst, rfl⟩ <;>
    rcases mem_beside.mp inside with ⟨second, atSecond, rfl⟩ | ⟨second, atSecond, rfl⟩
  · have within := (List.cons_prefix_cons.mp before).2
    exact congrArg (List.cons 0) (prunedHere first atFirst skipped second atSecond within)
  · obtain ⟨index, inner, address⟩ := (locatedBehind second atSecond).exists_address
    simp [moved, address] at before
  · obtain ⟨index, inner, address⟩ := (locatedBehind first atFirst).exists_address
    simp [moved, address] at before
  · have same := prunedBehind first atFirst skipped second atSecond
    obtain ⟨index, inner, address⟩ := (locatedBehind first atFirst).exists_address
    obtain ⟨index', inner', address'⟩ := (locatedBehind second atSecond).exists_address
    simp only [moved, address, address', List.modifyHead_cons, List.cons_prefix_cons,
      Nat.add_right_cancel_iff, List.cons.injEq] at before same ⊢
    exact same before

/-- The declaration at an address is attempted, or it stands inside of one that is skipped. -/
def Covers (log : List Attempt) (address : List Nat) : Prop :=
  ∃ attempt ∈ log, attempt.address = address ∨
    attempt.skip?.isSome ∧ attempt.address <+: address

/-- What is covered below the first node stays covered when nodes are added behind it. -/
theorem Covers.here {here : List Attempt} {address : List Nat} (covers : Covers here address)
    (behind : List Attempt) : Covers (beside here behind) (0 :: address) := by
  obtain ⟨attempt, listed, place⟩ := covers
  refine ⟨_, mem_beside.mpr (.inl ⟨attempt, listed, rfl⟩), ?_⟩
  exact place.imp (congrArg (List.cons 0)) fun outer =>
    ⟨outer.1, List.cons_prefix_cons.mpr ⟨rfl, outer.2⟩⟩

/-- What is covered among the rest stays covered when a node is added in front. -/
theorem Covers.behind {rest : List Node} {behind : List Attempt}
    (located : ∀ attempt ∈ behind, attempt.Located rest) {index : Nat} {inner : List Nat}
    (covers : Covers behind (index :: inner)) (here : List Attempt) :
    Covers (beside here behind) ((index + 1) :: inner) := by
  obtain ⟨attempt, listed, place⟩ := covers
  obtain ⟨index', inner', address⟩ := (located attempt listed).exists_address
  refine ⟨_, mem_beside.mpr (.inr ⟨attempt, listed, rfl⟩), ?_⟩
  simp only [moved, address, List.modifyHead_cons, List.cons.injEq, List.cons_prefix_cons,
    Nat.add_right_cancel_iff] at place ⊢
  exact place

/-- The attempt is made at a record that is registered under the id, and the other attempt at one
of its children. -/
structure Encloses (outer : Attempt) (id : TypeId) (attempt : Attempt) : Prop where
  registered : outer.outcome = .ok id
  kind : outer.node.kind = .record
  child : ∃ index, attempt.address = outer.address ++ [index]

/-- What is enclosed is not at the top of what encloses it. -/
theorem Encloses.address_ne_nil {outer attempt : Attempt} {id : TypeId}
    (encloses : outer.Encloses id attempt) : attempt.address ≠ [] := by
  obtain ⟨index, address⟩ := encloses.child
  simp [address]

/-- The parent of an attempt is the registered record that encloses it, if there is one. The
attempts at the given depth have no such record in the list, and their parent is given. -/
def Nested (parent : Option TypeId) (depth : Nat) (log : List Attempt) : Prop :=
  ∀ attempt ∈ log, ∀ id, attempt.parent = some id ↔
    attempt.address.length = depth ∧ parent = some id ∨ ∃ outer ∈ log, outer.Encloses id attempt

section Nested

variable {rest : List Node} {here behind : List Attempt} {attempt : Attempt} {id : TypeId}
  (locatedBehind : ∀ attempt ∈ behind, attempt.Located rest)

include locatedBehind

/-- An attempt below the first node is enclosed by attempts below this node only. -/
theorem exists_encloses_here :
    (∃ outer ∈ beside here behind, outer.Encloses id (attempt.moved (List.cons 0))) ↔
      ∃ outer ∈ here, outer.Encloses id attempt := by
  constructor
  · rintro ⟨_, listed, registered, kind, child, address⟩
    rcases mem_beside.mp listed with ⟨outer, inside, rfl⟩ | ⟨outer, inside, rfl⟩
    · exact ⟨outer, inside, registered, kind, child, List.cons_injective address⟩
    · obtain ⟨index, inner, place⟩ := (locatedBehind outer inside).exists_address
      simp [moved, place] at address
  · rintro ⟨outer, listed, registered, kind, child, address⟩
    exact ⟨_, mem_beside.mpr (.inl ⟨outer, listed, rfl⟩), registered, kind, child,
      congrArg (List.cons 0) address⟩

/-- An attempt behind the first node is enclosed by attempts behind it only. -/
theorem exists_encloses_behind (located : attempt.Located rest) :
    (∃ outer ∈ beside here behind,
      outer.Encloses id (attempt.moved (List.modifyHead (· + 1)))) ↔
      ∃ outer ∈ behind, outer.Encloses id attempt := by
  obtain ⟨index, inner, place⟩ := located.exists_address
  constructor
  · rintro ⟨_, listed, registered, kind, child, address⟩
    rcases mem_beside.mp listed with ⟨outer, inside, rfl⟩ | ⟨outer, inside, rfl⟩
    · simp [moved, place] at address
    · obtain ⟨index', inner', place'⟩ := (locatedBehind outer inside).exists_address
      refine ⟨outer, inside, registered, kind, child, ?_⟩
      simpa [moved, place, place'] using address
  · rintro ⟨outer, inside, registered, kind, child, address⟩
    obtain ⟨index', inner', place'⟩ := (locatedBehind outer inside).exists_address
    refine ⟨_, mem_beside.mpr (.inr ⟨outer, inside, rfl⟩), registered, kind, child, ?_⟩
    simpa [moved, place, place'] using address

/-- If parents tell the nesting on both sides, they do in the whole. -/
theorem nested_beside {parent : Option TypeId} (nestedHere : Nested parent 0 here)
    (nestedBehind : Nested parent 1 behind) : Nested parent 1 (beside here behind) := by
  intro _ listed id
  rcases mem_beside.mp listed with ⟨attempt, inside, rfl⟩ | ⟨attempt, inside, rfl⟩
  · rw [exists_encloses_here locatedBehind]
    simpa [moved] using nestedHere attempt inside id
  · rw [exists_encloses_behind locatedBehind (locatedBehind attempt inside)]
    simpa [moved] using nestedBehind attempt inside id

end Nested

/-- No record encloses the first of the trees. -/
theorem parent_iff_of_address_nil {attempt : Attempt} (top : attempt.address = [])
    (log : List Attempt) (id : TypeId) :
    attempt.parent = some id ↔ attempt.address.length = 0 ∧ attempt.parent = some id ∨
      ∃ outer ∈ log, outer.Encloses id attempt := by
  constructor
  · exact fun same => .inl ⟨congrArg List.length top, same⟩
  · rintro (⟨_, same⟩ | ⟨outer, _, encloses⟩)
    · exact same
    · exact absurd top encloses.address_ne_nil

/-- What stands inside a node that is passed has no parent. -/
theorem Nested.passed {nodes : List Node} {inner : List Attempt} (nested : Nested none 1 inner)
    (located : ∀ attempt ∈ inner, attempt.Located nodes) (parent : Option TypeId) :
    Nested parent 0 inner := by
  intro attempt listed id
  obtain ⟨index, rest, address⟩ := (located attempt listed).exists_address
  simpa [address] using nested attempt listed id

/-- What stands inside a node that is registered has it as its parent if it is a record. -/
theorem Nested.entered {node : Node} {nodes : List Node} {id : TypeId} {inner : List Attempt}
    (nested : Nested (node.scopeFor id) 1 inner)
    (located : ∀ attempt ∈ inner, attempt.Located nodes) (parent : Option TypeId) :
    Nested parent 0 (⟨[], node, parent, .ok id⟩ :: inner) := by
  intro attempt listed other
  rcases List.mem_cons.mp listed with rfl | listed
  · exact parent_iff_of_address_nil rfl _ other
  · obtain ⟨index, rest, address⟩ := (located attempt listed).exists_address
    have first : Encloses ⟨[], node, parent, .ok id⟩ other attempt ↔
        attempt.address.length = 1 ∧ node.scopeFor id = some other := by
      constructor
      · rintro ⟨registered, kind, child, place⟩
        exact ⟨by simp [place], by rw [scopeFor, if_pos kind, Except.ok.inj registered]⟩
      · rintro ⟨length, scope⟩
        rw [scopeFor] at scope
        split at scope
        · rename_i kind
          obtain ⟨child, place⟩ := List.length_eq_one_iff.mp length
          exact ⟨congrArg Except.ok (Option.some.inj scope), kind, child, place⟩
        · simp at scope
    rw [nested attempt listed other]
    simp [first, address]

/-- A skip alone stands in the parent that is handed down. -/
theorem nested_single (node : Node) (parent : Option TypeId) (skip : Skip) :
    Nested parent 0 [⟨[], node, parent, .error skip⟩] := by
  intro attempt listed id
  obtain rfl := List.mem_singleton.mp listed
  exact parent_iff_of_address_nil rfl _ id

end Attempt

namespace Shells

variable {parent : Option TypeId} {registry done : Registry} {nodes : List Node}
  {log : List Attempt}

/-- All attempts of a walk are made at nodes of the walked trees. -/
theorem Walk.located (walk : Walk parent nodes registry log done) :
    ∀ attempt ∈ log, attempt.Located nodes := by
  induction walk with
  | nil => simp
  | passed _ _ _ below behind =>
    exact Attempt.located_beside (fun attempt listed => (below attempt listed).below) behind
  | registered declares registers _ _ below behind =>
    refine Attempt.located_beside (List.forall_mem_cons.mpr ⟨?_, ?_⟩) behind
    · exact ⟨rfl, declares, registers.children_ne_nil⟩
    · exact fun attempt listed => (below attempt listed).below
  | skipped declares refuses _ _ behind =>
    refine Attempt.located_beside (List.forall_mem_singleton.mpr ?_) behind
    exact ⟨rfl, declares, refuses.children_ne_nil⟩

/-- The attempts come in document order. -/
theorem Walk.ordered (walk : Walk parent nodes registry log done) :
    log.Pairwise fun earlier later => earlier.address < later.address := by
  induction walk with
  | nil => exact .nil
  | passed _ _ walk below behind => exact Attempt.ordered_beside below walk.located behind
  | registered _ _ entered walk below behind =>
    refine Attempt.ordered_beside (.cons (fun attempt listed => ?_) below) walk.located behind
    obtain ⟨index, inner, address⟩ := (entered.located attempt listed).exists_address
    rw [address]
    exact List.nil_lt_cons index inner
  | skipped _ _ _ walk behind =>
    exact Attempt.ordered_beside (List.pairwise_singleton _ _) walk.located behind

/-- Nothing is attempted inside of a declaration that is skipped. -/
theorem Walk.pruned (walk : Walk parent nodes registry log done) :
    ∀ outer ∈ log, outer.skip?.isSome → ∀ attempt ∈ log, outer.address <+: attempt.address →
      outer.address = attempt.address := by
  induction walk with
  | nil => simp
  | passed _ _ walk below behind => exact Attempt.pruned_beside below walk.located behind
  | registered _ _ entered walk below behind =>
    refine Attempt.pruned_beside ?_ walk.located behind
    intro outer listed skipped attempt inside before
    rcases List.mem_cons.mp listed with rfl | listed
    · simp [Attempt.skip?] at skipped
    · rcases List.mem_cons.mp inside with rfl | inside
      · exact List.prefix_nil.mp before
      · exact below outer listed skipped attempt inside before
  | skipped _ _ _ walk behind =>
    refine Attempt.pruned_beside ?_ walk.located behind
    intro outer listed _ attempt inside _
    rw [List.mem_singleton.mp listed, List.mem_singleton.mp inside]

/-- Every declaration is attempted, or it stands inside of one that is skipped. -/
theorem Walk.covers (walk : Walk parent nodes registry log done) {address : List Nat} {node : Node}
    (found : nodeAt? nodes address = some node) (declares : node.declares = true)
    (children : node.children ≠ []) : Attempt.Covers log address := by
  -- An address is split as the rules split the trees. One inside of a tree that is skipped is
  -- covered by the skip, so the rule for these has nothing to say about what is below.
  induction walk generalizing address with
  | nil => cases address <;> simp [nodeAt?] at found
  | passed silent _ walk below behind =>
    rcases nodeAt?_cons found with ⟨_, rfl⟩ | ⟨inner, rfl, inside⟩ | ⟨index, inner, rfl, later⟩
    · simp [declares, children] at silent
    · exact (below inside).here _
    · exact (behind later).behind walk.located _
  | registered _ _ _ walk below behind =>
    rcases nodeAt?_cons found with ⟨rfl, _⟩ | ⟨inner, rfl, inside⟩ | ⟨index, inner, rfl, later⟩
    · exact ⟨_, List.mem_cons_self, .inl rfl⟩
    · obtain ⟨attempt, listed, place⟩ := below inside
      exact Attempt.Covers.here ⟨attempt, List.mem_cons_of_mem _ listed, place⟩ _
    · exact (behind later).behind walk.located _
  | skipped _ _ _ walk behind =>
    rcases nodeAt?_cons found with ⟨rfl, _⟩ | ⟨inner, rfl, _⟩ | ⟨index, inner, rfl, later⟩
    · exact ⟨_, List.mem_cons_self, .inl rfl⟩
    · exact ⟨_, List.mem_cons_self, .inr ⟨rfl, List.cons_prefix_cons.mpr ⟨rfl, List.nil_prefix⟩⟩⟩
    · exact (behind later).behind walk.located _

/-- Every attempt is made inside the record that encloses it. -/
theorem Walk.nested (walk : Walk parent nodes registry log done) :
    Attempt.Nested parent 1 log := by
  induction walk with
  | nil => simp [Attempt.Nested]
  | passed _ entered walk below behind =>
    exact Attempt.nested_beside walk.located (below.passed entered.located _) behind
  | registered _ _ entered walk below behind =>
    exact Attempt.nested_beside walk.located (below.entered entered.located _) behind
  | skipped _ _ _ walk behind =>
    exact Attempt.nested_beside walk.located (Attempt.nested_single _ _ _) behind

end Shells

end SchemaGraph
