import SchemaGraph.Proofs.AttemptPlaces
import SchemaGraph.Proofs.Lockstep

/-!
# Comments are inert

A comment of a record or of an enumeration is read in the second pass alone, and all that it does
there is to set the comment of the declaration around it. So if nothing is declared inside of it,
it may be deleted: a compile ends as before, and the graph lacks nothing but comments of
declarations. Any number of such comments may be deleted at once, at any depth.
-/

namespace SchemaGraph

open Node Registry

namespace Node

mutual
/-- The node without the chosen ones below it. -/
def prunedBelow (chosen : List Nat → Bool) : Node → Node
  | ⟨kind, text, children, position⟩ => ⟨kind, text, prune chosen children, position⟩
/-- Trees that stand side by side, without the chosen nodes and all that stands inside of these. A
node is chosen by its address. -/
def prune (chosen : List Nat → Bool) : List Node → List Node
  | [] => []
  | node :: rest =>
    let behind := prune (fun address => chosen (address.modifyHead (· + 1))) rest
    if chosen [0] then behind
    else prunedBelow (fun inner => chosen (0 :: inner)) node :: behind
end

/-- The node is a comment in which nothing is declared. -/
def IsInert (node : Node) : Prop :=
  node.kind = .comment ∧ Barren [node]

/-- An inert comment is at the address, as a child of a declaration but not as the first one. -/
def InertAt (nodes : List Node) (address : List Nat) : Prop :=
  ∃ outer owner index comment, address = outer ++ [index + 1] ∧
    nodeAt? nodes outer = some owner ∧ owner.declares = true ∧
    nodeAt? nodes address = some comment ∧ comment.IsInert

variable {node : Node} {rest nodes : List Node} {address inner : List Nat}

/-- A comment that is inert behind the first node is inert among the rest. -/
theorem InertAt.of_behind (inert : InertAt (node :: rest) (address.modifyHead (· + 1))) :
    InertAt rest address := by
  obtain ⟨outer, owner, index, comment, split, atOuter, declares, atAddress, fit⟩ := inert
  cases outer with
  | nil => cases atOuter
  | cons first outer =>
    cases address with
    | nil => cases split
    | cons second inner =>
      obtain ⟨rfl, rfl⟩ := List.cons.inj split
      exact ⟨second :: outer, owner, index, comment, rfl, atOuter, declares, atAddress, fit⟩

/-- An inert comment below a node is one of its members, if the node declares something, or stands
below one of its children. -/
theorem InertAt.of_below (inert : InertAt (node :: rest) (0 :: inner)) :
    (∃ index comment, inner = [index + 1] ∧ node.declares = true ∧
      node.children[index + 1]? = some comment ∧ comment.IsInert) ∨
    InertAt node.children inner := by
  obtain ⟨outer, owner, index, comment, split, atOuter, declares, atAddress, fit⟩ := inert
  cases outer with
  | nil => cases atOuter
  | cons first outer =>
    obtain ⟨rfl, rfl⟩ := List.cons.inj split
    cases outer with
    | nil =>
      obtain rfl : node = owner := Option.some.inj atOuter
      obtain ⟨_, atIndex, same⟩ := Option.bind_eq_some_iff.mp atAddress
      obtain rfl := Option.some.inj same
      exact .inl ⟨index, _, rfl, declares, atIndex, fit⟩
    | cons second outer =>
      exact .inr ⟨second :: outer, owner, index, comment, rfl, atOuter, declares, atAddress, fit⟩

/-- An inert comment is at the address, deeper down or among trees that are members themselves. The
flags are those of thinned trees. -/
def InertAmong (inside free : Bool) (nodes : List Node) (address : List Nat) : Prop :=
  (∃ index comment, address = [index] ∧ inside = true ∧ (index = 0 → free = true) ∧
    nodes[index]? = some comment ∧ comment.IsInert) ∨ InertAt nodes address

/-- A comment that is inert behind the first node is inert among the nodes behind it. -/
theorem InertAmong.of_behind {inside free : Bool}
    (inert : InertAmong inside free (node :: rest) (address.modifyHead (· + 1))) :
    InertAmong inside inside rest address := by
  rcases inert with ⟨index, comment, here, within, _, atIndex, fit⟩ | deeper
  · cases address with
    | nil => cases here
    | cons first inner =>
      obtain ⟨rfl, rfl⟩ := List.cons.inj here
      exact .inl ⟨first, comment, rfl, within, fun _ => within, atIndex, fit⟩
  · exact .inr deeper.of_behind

/-- A comment that is inert below the first node is inert among its children. -/
theorem InertAmong.of_below {inside free : Bool}
    (inert : InertAmong inside free (node :: rest) (0 :: inner)) (proper : inner ≠ []) :
    InertAmong node.declares false node.children inner := by
  rcases inert with ⟨_, _, here, _⟩ | deeper
  · exact absurd (List.cons.inj here).2 proper
  · exact deeper.of_below.imp_left fun ⟨index, comment, last, declares, atIndex, fit⟩ =>
      ⟨index + 1, comment, last, declares, by simp, atIndex, fit⟩

/-- A first tree at which an inert comment is may be dropped. -/
theorem InertAmong.of_first {inside free : Bool}
    (inert : InertAmong inside free (node :: rest) [0]) :
    inside = true ∧ free = true ∧ node.IsInert := by
  rcases inert with ⟨index, comment, here, within, first, atIndex, fit⟩ | deeper
  · obtain ⟨rfl, _⟩ := List.cons.inj here
    obtain rfl : node = comment := Option.some.inj atIndex
    exact ⟨within, first rfl, fit⟩
  · rcases deeper.of_below with ⟨_, _, last, _⟩ | ⟨_, _, _, _, split, _⟩
    · cases last
    · simp at split

/-- Pruning goes node by node, and into each node that is kept. -/
theorem prune_cons (chosen : List Nat → Bool) (node : Node) (rest : List Node) :
    prune chosen (node :: rest) =
      if chosen [0] then prune (fun address => chosen (address.modifyHead (· + 1))) rest
      else { node with children := prune (fun inner => chosen (0 :: inner)) node.children } ::
        prune (fun address => chosen (address.modifyHead (· + 1))) rest := by
  cases node
  rw [prune, prunedBelow]

/-- Trees without some inert comments are thinned. -/
theorem thinned_prune {inside free : Bool} {chosen : List Nat → Bool}
    (inert : ∀ address, chosen address = true → InertAmong inside free nodes address) :
    Thinned IsInert inside free nodes (prune chosen nodes) := by
  -- On the way down the choice is narrowed to what is below a tree or behind it, and addresses are
  -- counted from there.
  induction nodes using forest_induction generalizing inside free chosen with
  | nil => exact .nil
  | cons node rest children _ ih =>
    rw [prune_cons]
    by_cases first : chosen [0]
    · obtain ⟨rfl, rfl, fit⟩ := (inert [0] first).of_first
      rw [if_pos first]
      exact .dropped fit (ih fun address later => (inert _ later).of_behind)
    · rw [if_neg first]
      refine .kept rfl rfl rfl (children fun inner deeper => ?_)
        (ih fun address later => (inert _ later).of_behind)
      refine (inert _ deeper).of_below ?_
      rintro rfl
      exact first deeper

end Node

/-- The declaration without a comment of its own. -/
def Declaration.withoutComment : Declaration → Declaration
  | record type => record { type with comment := none }
  | enumeration type => enumeration { type with comment := none }
  | builtin => builtin

/-- A comment is part of the contents. -/
theorem Declaration.bare_withoutComment (declaration : Declaration) :
    declaration.withoutComment.bare = declaration.bare := by
  cases declaration <;> rfl

/-- The registry without the comments of its declarations. -/
def Registry.withoutComments (registry : Registry) : Registry :=
  ⟨registry.declarations.map Declaration.withoutComment⟩

/-- What the second pass does to a declaration it does up to comments. -/
theorem inStep_withoutComment {camelCaseKeys : Bool} :
    InStep Node.IsInert camelCaseKeys camelCaseKeys fun declaration declaration' =>
      declaration'.withoutComment = declaration.withoutComment where
  shell _ _ := rfl
  bare declaration declaration' like := by
    rw [← declaration'.bare_withoutComment, like, declaration.bare_withoutComment]
  gain := by
    intro record record' property identity switched like
    have switch : property.withKeys camelCaseKeys = property := by rw [← switched]; rfl
    rw [switch]
    exact congrArg (Declaration.onRecord (.gain property identity)) like
  recordComment _ _ _ like := like
  value _ _ value like := congrArg (Declaration.onEnumeration (.addValue value)) like
  enumerationComment _ _ _ like := like
  inert _ fit := fit
  droppedFromRecord _ _ _ _ like := like
  droppedFromEnumeration _ _ _ _ like := like

/-- Registries that differ in comments only are equal without them. -/
theorem Registry.Alike.withoutComments {registry registry' : Registry}
    (like : Registry.Alike (fun declaration declaration' =>
      declaration'.withoutComment = declaration.withoutComment) registry registry') :
    registry'.withoutComments = registry.withoutComments :=
  congrArg Registry.mk like.map_eq

/-- Comments are inert, whatever the shape of the trees. If any set of comments is deleted that are
members of records or enumerations and in which nothing is declared, a compile succeeds or fails as
before, with the same error, the same listing and the same report but for the instant, and the graph
is the same but for the comments of records and enumerations. -/
theorem compile_prune (settings : Settings) (moment moment' : Instant) (schema : Schema)
    (chosen : List Nat → Bool)
    (inert : ∀ address, chosen address = true → InertAt schema address) :
    (compile settings moment' (prune chosen schema)).result.map withoutComments =
      (compile settings moment schema).result.map withoutComments ∧
    (compile settings moment' (prune chosen schema)).report.madeAt
        (compile settings moment schema).report.compiledAt =
      (compile settings moment schema).report ∧
    (compile settings moment' (prune chosen schema)).listing =
      (compile settings moment schema).listing := by
  have thinned : Thinned IsInert false false schema (prune chosen schema) :=
    thinned_prune fun address listed => .inr (inert address listed)
  obtain ⟨⟨results, reports⟩, listings⟩ :=
    compile_alike settings settings rfl rfl inStep_withoutComment thinned moment moment'
  refine ⟨?_, reports, listings rfl⟩
  generalize (compile settings moment schema).result = result,
    (compile settings moment' (prune chosen schema)).result = result' at results
  cases results with
  | ok like => exact congrArg Except.ok like.withoutComments
  | error error => rfl

/-- A record and an enumeration in it, both with comments. -/
def annotatedSchema : Schema :=
  [record "Doc"
    [make .comment "draft" [],
      make .enumeration "enum"
        [token "State", make .comment "note" [token "of", token "work"], token "open"],
      make .comment "note" [token "stored"]]]

/-- Three comments are dropped from a schema, and nothing but comments changes in its graph. -/
theorem compile_prune_annotatedSchema :
    (∀ address, [[0, 1], [0, 2, 1], [0, 3]].contains address = true →
      InertAt annotatedSchema address) ∧
    ∃ registry,
      (compile Settings.default Instant.epoch annotatedSchema).result = .ok registry ∧
      (compile Settings.default Instant.epoch
          [record "Doc" [enumeration "State" ["open"]]]).result.map withoutComments =
        .ok registry.withoutComments := by
  have inert : ∀ address, [[0, 1], [0, 2, 1], [0, 3]].contains address = true →
      InertAt annotatedSchema address := by
    intro address listed
    rw [List.contains_iff_mem] at listed
    revert address
    simp only [List.forall_mem_cons, List.not_mem_nil, false_imp_iff, implies_true, and_true]
    exact ⟨⟨[0], _, 0, _, rfl, rfl, rfl, rfl, rfl, by decide⟩,
      ⟨[0, 2], _, 0, _, rfl, rfl, rfl, rfl, rfl, by decide⟩,
      ⟨[0], _, 2, _, rfl, rfl, rfl, rfl, rfl, by decide⟩⟩
  have pruned : prune ([[0, 1], [0, 2, 1], [0, 3]].contains ·) annotatedSchema =
      [record "Doc" [enumeration "State" ["open"]]] := rfl
  obtain ⟨registry, success⟩ : ∃ registry,
      (compile Settings.default Instant.epoch annotatedSchema).result = .ok registry := ⟨_, rfl⟩
  refine ⟨inert, registry, success, ?_⟩
  rw [← pruned, (compile_prune Settings.default Instant.epoch Instant.epoch annotatedSchema _
    inert).1, success]
  rfl

end SchemaGraph
