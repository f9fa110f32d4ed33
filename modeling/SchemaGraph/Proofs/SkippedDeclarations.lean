import SchemaGraph.Proofs.AttemptPlaces

/-!
# Skipped declarations

A declaration that the first pass skips leaves no trace but its skip. If it is deleted from the
document, with all that stands inside of it, the pass registers the same types under the same ids
and skips the other declarations as before. Deletion leaves the first child of every registered
declaration its name, since that is a token and no declaration.
-/

namespace SchemaGraph

open Node Registry

namespace Node

/-- Delete the node at an address, with all that stands inside of it. -/
def deleteAt : List Nat → List Node → List Node
  | [], nodes => nodes
  | [index], nodes => nodes.eraseIdx index
  | index :: next :: inner, nodes =>
    nodes.modify index fun node => { node with children := deleteAt (next :: inner) node.children }

/-- The node without the one at an address below it. -/
def without (address : List Nat) (node : Node) : Node :=
  { node with children := deleteAt address node.children }

/-- An address below the first node leaves the others alone. -/
theorem deleteAt_below (index : Nat) (inner : List Nat) (node : Node) (rest : List Node) :
    deleteAt (0 :: index :: inner) (node :: rest) = node.without (index :: inner) :: rest := rfl

/-- An address behind the first node leaves it alone. -/
theorem deleteAt_behind (index : Nat) (inner : List Nat) (node : Node) (rest : List Node) :
    deleteAt ((index + 1) :: inner) (node :: rest) = node :: deleteAt (index :: inner) rest := by
  cases inner <;> simp [deleteAt]

/-- Where nothing is, nothing is deleted. -/
theorem deleteAt_nil (address : List Nat) : deleteAt address [] = [] := by
  match address with
  | [] => rfl
  | [_] => rfl
  | _ :: _ :: _ => simp [deleteAt]

/-- Deleting a declaration leaves the first child what it is, if that is a token. -/
theorem exists_name_deleteAt {name found : Node} {members : List Node} {address : List Nat}
    (token : name.kind = .token) (atAddress : nodeAt? (name :: members) address = some found)
    (declares : found.declares = true) :
    ∃ name' members', deleteAt address (name :: members) = name' :: members' ∧
      name'.kind = name.kind ∧ name'.text = name.text := by
  rcases nodeAt?_cons atAddress with ⟨_, rfl⟩ | ⟨inner, rfl, inside⟩ | ⟨index, inner, rfl, _⟩
  · simp [Node.declares, token] at declares
  · cases inner with
    | nil => simp [nodeAt?] at inside
    | cons index inner => exact ⟨_, _, deleteAt_below index inner name members, rfl, rfl⟩
  · exact ⟨_, _, deleteAt_behind index inner name members, rfl, rfl⟩

/-- A declaration keeps its name if one is deleted inside of it. -/
theorem HasLocalName.without {node found : Node} {address : List Nat} (fit : node.HasLocalName)
    (atAddress : nodeAt? node.children address = some found) (declares : found.declares = true) :
    (node.without address).HasLocalName ∧ (node.without address).localName = node.localName := by
  obtain ⟨name, members, children, token, isFit⟩ := fit
  rw [children] at atAddress
  obtain ⟨name', members', deleted, kind, text⟩ := exists_name_deleteAt token atAddress declares
  have children' : (node.without address).children = name' :: members' := by
    rw [Node.without, children, deleted]
  refine ⟨⟨name', members', children', kind.trans token, text ▸ isFit⟩, ?_⟩
  simp [localName, firstChildText?, children, children', text]

end Node

/-- A declaration is registered as before if one is deleted inside of it. -/
theorem Registers.without {registry grown : Registry} {parent : Option TypeId} {node found : Node}
    {name : String} {id : TypeId} {address : List Nat}
    (registers : Registers registry parent node name id grown)
    (atAddress : nodeAt? node.children address = some found) (declares : found.declares = true) :
    Registers registry parent (node.without address) name id grown := by
  obtain ⟨fit, sameName⟩ := registers.fit.without atAddress declares
  exact ⟨fit, sameName ▸ registers.qualified, registers.success⟩

namespace Attempt

/-- To delete a skipped node below the first one is to delete it there. -/
theorem Located.deleteAt_here {node : Node} {attempt : Attempt}
    (located : attempt.Located node.children) (rest : List Node) :
    deleteAt (attempt.moved (List.cons 0)).address (node :: rest) =
      node.without attempt.address :: rest := by
  obtain ⟨index, inner, address⟩ := located.exists_address
  rw [moved, address, deleteAt_below]

/-- To delete one behind it is to delete it among the rest. -/
theorem Located.deleteAt_behind {rest : List Node} {attempt : Attempt}
    (located : attempt.Located rest) (node : Node) :
    deleteAt (attempt.moved (List.modifyHead (· + 1))).address (node :: rest) =
      node :: deleteAt attempt.address rest := by
  obtain ⟨index, inner, address⟩ := located.exists_address
  rw [moved, address, List.modifyHead_cons, Node.deleteAt_behind]

/-- The skips of one list are those of the other but for that of an attempt. -/
def Loses (log log' : List Attempt) (attempt : Attempt) : Prop :=
  ∃ before behind, log = before ++ attempt :: behind ∧
    log'.filterMap skip? = before.filterMap skip? ++ behind.filterMap skip?

variable {log log' : List Attempt} {attempt : Attempt}

/-- The skip of the first node is lost with the node. -/
theorem loses_first (attempt : Attempt) (behind : List Attempt) :
    Loses (beside [attempt] behind) behind (attempt.moved (List.cons 0)) :=
  ⟨[], behind.map (moved (List.modifyHead (· + 1))), rfl, (filterMap_skip?_moved _ _).symm⟩

/-- A skip that is lost behind attempts without skips is lost in the whole. -/
theorem Loses.cons (loses : Loses log log' attempt) {first first' : Attempt}
    (quiet : first.skip? = none) (quiet' : first'.skip? = none) :
    Loses (first :: log) (first' :: log') attempt := by
  obtain ⟨before, after, rfl, skips⟩ := loses
  refine ⟨first :: before, after, rfl, ?_⟩
  rw [List.filterMap_cons_none quiet', List.filterMap_cons_none quiet, skips]

/-- An attempt that is lost below the first node is lost in the whole. -/
theorem Loses.here (loses : Loses log log' attempt) (behind : List Attempt) :
    Loses (beside log behind) (beside log' behind) (attempt.moved (List.cons 0)) := by
  obtain ⟨before, after, rfl, skips⟩ := loses
  refine ⟨before.map (moved (List.cons 0)), beside after behind, by simp [beside], ?_⟩
  rw [filterMap_skip?_beside, skips, filterMap_skip?_moved, filterMap_skip?_beside,
    List.append_assoc]

/-- An attempt that is lost behind the first node is lost in the whole. -/
theorem Loses.behind (loses : Loses log log' attempt) (here : List Attempt) :
    Loses (beside here log) (beside here log') (attempt.moved (List.modifyHead (· + 1))) := by
  obtain ⟨before, after, rfl, skips⟩ := loses
  refine ⟨beside here before, after.map (moved (List.modifyHead (· + 1))), by simp [beside], ?_⟩
  rw [filterMap_skip?_beside, skips, filterMap_skip?_moved, filterMap_skip?_beside,
    List.append_assoc]

end Attempt

namespace Shells

open Attempt

/-- Without a declaration that is skipped, the rules derive the same registry, and of the skips
only that of the declaration is lost. -/
theorem Walk.deleteAt {parent : Option TypeId} {nodes : List Node} {registry done : Registry}
    {log : List Attempt} (walk : Walk parent nodes registry log done) :
    ∀ attempt ∈ log, attempt.skip?.isSome → ∃ log',
      Walk parent (deleteAt attempt.address nodes) registry log' done ∧ Loses log log' attempt := by
  -- The same rules apply again, but for the one that skips the declaration. A rule reads of a node
  -- around it only whether it declares anything, and under which name; deletion changes neither.
  induction walk with
  | nil => simp
  | passed silent entered walk below behind =>
    intro _ listed isSkip
    rcases mem_beside.mp listed with ⟨attempt, inside, rfl⟩ | ⟨attempt, later, rfl⟩
    · obtain ⟨log', walk', loses⟩ := below attempt inside isSkip
      rw [(entered.located attempt inside).deleteAt_here]
      refine ⟨_, .passed (silent.imp_right fun empty => ?_) walk' walk, loses.here _⟩
      rw [Node.without, empty, deleteAt_nil]
    · obtain ⟨log', walk', loses⟩ := behind attempt later isSkip
      rw [(walk.located attempt later).deleteAt_behind]
      exact ⟨_, .passed silent entered walk', loses.behind _⟩
  | registered declares registers entered walk below behind =>
    intro _ listed isSkip
    rcases mem_beside.mp listed with ⟨attempt, inside, rfl⟩ | ⟨attempt, later, rfl⟩
    · rcases List.mem_cons.mp inside with rfl | inside
      · simp [moved, skip?] at isSkip
      · obtain ⟨log', walk', loses⟩ := below attempt inside isSkip
        have located := entered.located attempt inside
        have registers' := registers.without located.found located.declares
        rw [located.deleteAt_here]
        exact ⟨_, .registered declares registers' walk' walk, (loses.cons rfl rfl).here _⟩
    · obtain ⟨log', walk', loses⟩ := behind attempt later isSkip
      rw [(walk.located attempt later).deleteAt_behind]
      exact ⟨_, .registered declares registers entered walk', loses.behind _⟩
  | skipped declares refuses around walk behind =>
    intro _ listed isSkip
    rcases mem_beside.mp listed with ⟨attempt, here, rfl⟩ | ⟨attempt, later, rfl⟩
    · obtain rfl := List.mem_singleton.mp here
      exact ⟨_, walk, loses_first _ _⟩
    · obtain ⟨log', walk', loses⟩ := behind attempt later isSkip
      rw [(walk.located attempt later).deleteAt_behind]
      exact ⟨_, .skipped declares refuses around walk', loses.behind _⟩

end Shells

/-- A declaration that is skipped affects nothing else in the first pass, whatever the shape of the
trees: without it and all that stands inside of it, the registry is the same, and the skips are
the same in the same order but for the one of the declaration. -/
theorem ofSchema_deleteAt {builtins : Registry} {schema : Schema} {attempt : Attempt} {skip : Skip}
    (listed : attempt ∈ Shells.attempts none schema builtins)
    (skipped : attempt.outcome = .error skip) :
    nodeAt? schema attempt.address = some attempt.node ∧ attempt.node.declares = true ∧
    ∃ before behind, Shells.attempts none schema builtins = before ++ attempt :: behind ∧
      (Shells.ofSchema builtins schema).skips = before.filterMap Attempt.skip? ++
        skip :: behind.filterMap Attempt.skip? ∧
      Shells.ofSchema builtins (deleteAt attempt.address schema) =
        ⟨(Shells.ofSchema builtins schema).registry,
          before.filterMap Attempt.skip? ++ behind.filterMap Attempt.skip?⟩ := by
  have isSkip : attempt.skip? = some skip := by rw [Attempt.skip?, skipped]
  obtain ⟨done, walk⟩ := Shells.walk_attempts schema (hasScope_none builtins)
  have located := walk.located attempt listed
  obtain ⟨log', walk', before, behind, split, skips⟩ :=
    walk.deleteAt attempt listed (by rw [isSkip]; rfl)
  refine ⟨located.found, located.declares, before, behind, split, ?_, ?_⟩
  · rw [Shells.ofSchema, walk.declareAll_eq, split, List.filterMap_append,
      List.filterMap_cons_some isSkip]
    rfl
  · rw [Shells.ofSchema, Shells.ofSchema, walk.declareAll_eq, walk'.declareAll_eq, skips]
    rfl

/-- A record that is declared again inside of a comment of its own, in front of a third one. -/
def repeatedSchema : Schema :=
  [record "Order"
    [make .comment "note" [record "Order" [enumeration "Status" ["draft"]]],
      enumeration "Status" ["open"]],
    record "Order" []]

/-- A record that repeats a name inside a wrapper is deleted, and only its skip goes. -/
theorem ofSchema_deleteAt_repeatedSchema :
    ∃ attempt ∈ Shells.attempts none repeatedSchema ⟨Settings.default.builtins⟩,
      attempt.address = [0, 1, 0] ∧
      attempt.outcome = .error ⟨.duplicateType "Order", none⟩ ∧
      ∃ before behind : List Skip,
        (Shells.ofSchema ⟨Settings.default.builtins⟩ repeatedSchema).skips =
          before ++ ⟨.duplicateType "Order", none⟩ :: behind ∧
        Shells.ofSchema ⟨Settings.default.builtins⟩ (deleteAt [0, 1, 0] repeatedSchema) =
          ⟨(Shells.ofSchema ⟨Settings.default.builtins⟩ repeatedSchema).registry,
            before ++ behind⟩ := by
  obtain ⟨attempt, listed, address, skipped⟩ :
      ∃ attempt ∈ Shells.attempts none repeatedSchema ⟨Settings.default.builtins⟩,
        attempt.address = [0, 1, 0] ∧
          attempt.outcome = .error ⟨.duplicateType "Order", none⟩ := by decide
  obtain ⟨_, _, before, behind, _, skips, rest⟩ := ofSchema_deleteAt listed skipped
  exact ⟨attempt, listed, address, skipped, _, _, skips, address ▸ rest⟩

end SchemaGraph
