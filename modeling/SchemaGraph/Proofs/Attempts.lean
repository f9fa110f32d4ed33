import SchemaGraph.Proofs.FirstPass

/-!
# The attempts of the first pass

The first pass attempts to register every declaration that it reaches, and enters a declaration
only if the attempt succeeds. Its attempts are listed here with their addresses in the document,
and the pass is restated by rules: a node that declares nothing is passed, a declaration is
registered and entered, or it is skipped. What the rules derive is what the pass computes, so
facts about the pass can be proved by induction on the rules, whatever the shape of the trees.
-/

namespace SchemaGraph

open Node Registry

namespace Node

/-- The scope of what stands inside a node that is registered under an id. -/
def scopeFor (node : Node) (id : TypeId) : Option TypeId :=
  if node.kind = .record then some id else none

end Node

namespace Registry

/-- A scope in which something can be registered: the top level, or a record. -/
def HasScope (registry : Registry) (scope : Option TypeId) : Prop :=
  ∀ id, scope = some id → registry.HasRecord id

/-- The top level is a scope of every registry. -/
theorem hasScope_none (registry : Registry) : registry.HasScope none :=
  fun _ same => by simp at same

/-- A scope stays one when more is registered. -/
theorem HasScope.of_keeps {registry grown : Registry} (keeps : registry.Keeps grown)
    {scope : Option TypeId} (known : registry.HasScope scope) : grown.HasScope scope :=
  fun id same => keeps.hasRecord (known id same)

/-- A scope can be named, so a skip inside it can be placed. -/
theorem HasScope.exists_scopeName {registry : Registry} {scope : Option TypeId}
    (known : registry.HasScope scope) : ∃ name, registry.scopeName scope = .ok name := by
  cases scope with
  | none => exact ⟨none, rfl⟩
  | some id =>
    obtain ⟨record, found⟩ := known id rfl
    have named : registry.nameOf id = .ok record.name := nameOf_eq_ok_iff.mpr ⟨_, found, rfl⟩
    refine ⟨some record.name, ?_⟩
    rw [scopeName, named]
    rfl

/-- Every name can be qualified inside a scope. -/
theorem HasScope.exists_qualify {registry : Registry} {scope : Option TypeId}
    (known : registry.HasScope scope) (localName : String) :
    ∃ name, registry.qualify scope localName = .ok name := by
  obtain ⟨name, named⟩ := known.exists_scopeName
  rw [qualify, named]
  exact ⟨_, rfl⟩

/-- A name that is taken is refused first, whatever else is wrong with the declaration. -/
theorem register_of_mem_names {registry : Registry} {declaration : Declaration}
    (listed : declaration.name ∈ registry.names) :
    registry.register declaration = .error (.duplicateType declaration.name) := by
  rw [register, find?_eq, if_pos listed]
  rfl

end Registry

/-- Register the declaration of a node, if it declares anything and has a child. -/
def registerNode (registry : Registry) (parent : Option TypeId) (node : Node) :
    Except CompileError (Option (TypeId × Registry)) :=
  match node.children with
  | [] => .ok none
  | name :: _ => registerNamed registry parent node.kind name

/-- The declaration of the node is registered under a qualified name. -/
structure Registers (registry : Registry) (parent : Option TypeId) (node : Node) (name : String)
    (id : TypeId) (grown : Registry) : Prop where
  fit : node.HasLocalName
  qualified : registry.qualify parent node.localName = .ok name
  success : registry.register (emptyShell node.kind name parent) = .ok (id, grown)

/-- The declaration of the node is refused: it has no fit name, or its qualified name is taken. -/
inductive Refuses (registry : Registry) (parent : Option TypeId) (node : Node) :
    CompileError → Prop
  | unfit {name : Node} {members : List Node} {error : CompileError}
      (children : node.children = name :: members) (unread : declarationName name = .error error) :
      Refuses registry parent node error
  | taken {name : String} (fit : node.HasLocalName)
      (qualified : registry.qualify parent node.localName = .ok name)
      (listed : name ∈ registry.names) : Refuses registry parent node (.duplicateType name)

section RegisterNode

variable {registry grown : Registry} {parent : Option TypeId} {node : Node} {id : TypeId}

/-- A node of a fit name has children, and its name is read from the first of them. -/
theorem Node.HasLocalName.exists_children (fit : node.HasLocalName) :
    ∃ name members, node.children = name :: members ∧
      declarationName name = .ok node.localName := by
  obtain ⟨name, members, children, isFit⟩ := fit
  refine ⟨name, members, children, declarationName_eq_ok_iff.mpr ⟨isFit, ?_⟩⟩
  simp [localName, firstChildText?, children]

/-- What is registered has a name, hence children. -/
theorem Registers.children_ne_nil {name : String}
    (registers : Registers registry parent node name id grown) : node.children ≠ [] :=
  registers.fit.children_ne_nil

/-- What is refused has at least a child that should have been its name. -/
theorem Refuses.children_ne_nil {error : CompileError}
    (refuses : Refuses registry parent node error) : node.children ≠ [] := by
  cases refuses with
  | unfit children => simp [children]
  | taken fit => exact fit.children_ne_nil

/-- A node is passed over exactly if it declares nothing or has no children at all. -/
theorem registerNode_eq_none_iff :
    registerNode registry parent node = .ok none ↔ node.declares = false ∨ node.children = [] := by
  rw [registerNode]
  cases node.children with
  | nil => simp
  | cons name members =>
    by_cases declares : node.kind = .record ∨ node.kind = .enumeration
    · have declaring : node.declares = true := declares_iff.mpr declares
      simp only [registerNamed_of_declares declares, declaring, Bool.true_eq_false, reduceCtorEq,
        or_self, iff_false]
      cases declarationName name with
      | error error => simp
      | ok text =>
        dsimp only
        cases registry.qualify parent text with
        | error error => simp
        | ok qualified =>
          dsimp only
          cases registry.register _ <;> simp
    · have silent : node.declares = false := by simpa [Node.declares] using declares
      simp [registerNamed_of_silent (by simpa using declares), silent]

/-- The declaration of a node of a fit name is registered under its qualified name. -/
theorem registerNode_of_hasLocalName (declares : node.declares = true) (fit : node.HasLocalName)
    {name : String} (qualified : registry.qualify parent node.localName = .ok name) :
    registerNode registry parent node =
      ((registry.register (emptyShell node.kind name parent)).mapError .ofRegistry).map some := by
  obtain ⟨first, members, children, named⟩ := fit.exists_children
  rw [registerNode, children]
  simp only [registerNamed_of_declares (declares_iff.mp declares), named, qualified]
  cases registry.register (emptyShell node.kind name parent) <;> rfl

/-- A name that cannot be read is the reason of the refusal. -/
theorem registerNode_of_unread {name : Node} {members : List Node} {error : CompileError}
    (declares : node.declares = true) (children : node.children = name :: members)
    (unread : declarationName name = .error error) :
    registerNode registry parent node = .error error := by
  rw [registerNode, children]
  simp only [registerNamed_of_declares (declares_iff.mp declares), unread]

/-- The relation of registration is what the first pass does at a declaring node. -/
theorem Registers.registerNode (declares : node.declares = true) {name : String}
    (registers : Registers registry parent node name id grown) :
    registerNode registry parent node = .ok (some (id, grown)) := by
  rw [registerNode_of_hasLocalName declares registers.fit registers.qualified, registers.success]
  rfl

/-- An attempt fails with every error that it is refused for. -/
theorem Refuses.registerNode (declares : node.declares = true) {error : CompileError}
    (refuses : Refuses registry parent node error) :
    registerNode registry parent node = .error error := by
  cases refuses with
  | unfit children unread => exact registerNode_of_unread declares children unread
  | @taken name fit qualified listed =>
    have sameName := emptyShell_name node.kind name parent
    have refused := register_of_mem_names (sameName.symm ▸ listed)
    rw [registerNode_of_hasLocalName declares fit qualified, refused, emptyShell_name]
    rfl

/-- In a scope, an attempt to register a declaration succeeds or is refused for one of the two
reasons. -/
theorem registers_or_refuses (known : registry.HasScope parent) (children : node.children ≠ []) :
    (∃ name id grown, Registers registry parent node name id grown) ∨
      ∃ error, Refuses registry parent node error := by
  obtain ⟨first, members, split⟩ := List.exists_cons_of_ne_nil children
  cases named : declarationName first with
  | error error => exact .inr ⟨error, .unfit split named⟩
  | ok text =>
    have fit : node.HasLocalName :=
      ⟨first, members, split, (declarationName_eq_ok_iff.mp named).1⟩
    obtain ⟨name, qualified⟩ := known.exists_qualify node.localName
    by_cases listed : name ∈ registry.names
    · exact .inr ⟨_, .taken fit qualified listed⟩
    · refine .inl ⟨name, _, _, fit, qualified, register_eq_ok_iff.mpr ⟨?_, ?_, rfl, rfl⟩⟩
      · rwa [emptyShell_name]
      · rwa [emptyShell_parent]

end RegisterNode

/-- What becomes of a declaration that the first pass reaches: it is registered under an id, or
it is skipped. -/
structure Attempt where
  /-- The place of the declaration among the trees. -/
  address : List Nat
  node : Node
  /-- The record that the declaration is to be nested in. -/
  parent : Option TypeId
  outcome : Except Skip TypeId

namespace Attempt

/-- The id under which the declaration is registered. -/
def id? (attempt : Attempt) : Option TypeId :=
  attempt.outcome.toOption

/-- An attempt has an id exactly if it has registered it. -/
theorem id?_eq_some_iff {attempt : Attempt} {id : TypeId} :
    attempt.id? = some id ↔ attempt.outcome = .ok id := by
  rw [id?]
  cases attempt.outcome <;> simp [Except.toOption]

/-- The skip of the declaration. -/
def skip? (attempt : Attempt) : Option Skip :=
  match attempt.outcome with
  | .ok _ => none
  | .error skip => some skip

/-- The attempt at another place. -/
def moved (move : List Nat → List Nat) (attempt : Attempt) : Attempt :=
  { attempt with address := move attempt.address }

/-- The attempts at a tree and those at the trees behind it, put together. -/
def beside (here behind : List Attempt) : List Attempt :=
  here.map (moved (List.cons 0)) ++ behind.map (moved (List.modifyHead (· + 1)))

/-- The attempts of the whole are those at the first node and those behind it, with their addresses
moved. -/
theorem mem_beside {here behind : List Attempt} {attempt : Attempt} :
    attempt ∈ beside here behind ↔
      (∃ other ∈ here, other.moved (List.cons 0) = attempt) ∨
        ∃ other ∈ behind, other.moved (List.modifyHead (· + 1)) = attempt := by
  rw [beside, List.mem_append, List.mem_map, List.mem_map]

/-- The skips do not depend on the places of the attempts. -/
theorem filterMap_skip?_moved (move : List Nat → List Nat) (log : List Attempt) :
    (log.map (moved move)).filterMap skip? = log.filterMap skip? := by
  rw [List.filterMap_map]
  rfl

/-- The skips of the whole are those at the first node and then those behind it. -/
theorem filterMap_skip?_beside (here behind : List Attempt) :
    (beside here behind).filterMap skip? = here.filterMap skip? ++ behind.filterMap skip? := by
  rw [beside, List.filterMap_append, filterMap_skip?_moved, filterMap_skip?_moved]

end Attempt

/-- The attempts are made one after the other, each at the registry that the ones before it have
left behind. -/
inductive Run : Registry → List Attempt → Registry → Prop
  | nil {registry : Registry} : Run registry [] registry
  | registered {attempt : Attempt} {rest : List Attempt} {registry grown done : Registry}
      {name : String} {id : TypeId}
      (registers : Registers registry attempt.parent attempt.node name id grown)
      (outcome : attempt.outcome = .ok id) (run : Run grown rest done) :
      Run registry (attempt :: rest) done
  | skipped {attempt : Attempt} {rest : List Attempt} {registry done : Registry}
      {error : CompileError} {scope : Option String}
      (refuses : Refuses registry attempt.parent attempt.node error)
      (outcome : attempt.outcome = .error ⟨error, scope⟩) (run : Run registry rest done) :
      Run registry (attempt :: rest) done

namespace Run

variable {registry middle done : Registry} {log before behind : List Attempt}

/-- Whatever is attempted, what was registered before is kept. -/
theorem keeps (run : Run registry log done) : registry.Keeps done := by
  induction run with
  | nil => exact Keeps.refl _
  | registered registers _ _ ih => exact (keeps_of_register registers.success).trans ih
  | skipped _ _ _ ih => exact ih

/-- Attempts can be made in two goes. -/
theorem append (first : Run registry before middle) (second : Run middle behind done) :
    Run registry (before ++ behind) done := by
  induction first with
  | nil => exact second
  | registered registers outcome _ ih => exact .registered registers outcome (ih second)
  | skipped refuses outcome _ ih => exact .skipped refuses outcome (ih second)

/-- The places of the attempts do not matter. -/
theorem moved (run : Run registry log done) (move : List Nat → List Nat) :
    Run registry (log.map (Attempt.moved move)) done := by
  induction run with
  | nil => exact .nil
  | registered registers outcome _ ih => exact .registered registers outcome ih
  | skipped refuses outcome _ ih => exact .skipped refuses outcome ih

/-- The attempts at a node and those behind it make up the attempts at all of them. -/
theorem beside (first : Run registry before middle) (second : Run middle behind done) :
    Run registry (Attempt.beside before behind) done :=
  (first.moved _).append (second.moved _)

end Run

namespace Shells

/-- The skip of a declaration inside a parent. -/
def skipOf (registry : Registry) (parent : Option TypeId) (error : CompileError) : Skip :=
  match registry.scopeName parent with
  | .ok scope => ⟨error, scope⟩
  | .error unknown => ⟨.ofRegistry unknown, none⟩

mutual
/-- The attempts of the first pass at a node that stands inside a parent and below it. -/
def attemptsOf (parent : Option TypeId) : Node → Registry → List Attempt
  | ⟨_, _, [], _⟩, _ => []
  | ⟨kind, text, name :: members, position⟩, registry =>
    match registerNamed registry parent kind name with
    | .ok (some (id, grown)) =>
      let scope := if kind = .record then some id else none
      ⟨[], ⟨kind, text, name :: members, position⟩, parent, .ok id⟩ ::
        attempts scope (name :: members) grown
    | .ok none => attempts none (name :: members) registry
    | .error error =>
      [⟨[], ⟨kind, text, name :: members, position⟩, parent,
        .error (skipOf registry parent error)⟩]
/-- The attempts of the first pass at trees that stand side by side inside a parent, in document
order. -/
def attempts (parent : Option TypeId) : List Node → Registry → List Attempt
  | [], _ => []
  | node :: rest, registry =>
    Attempt.beside (attemptsOf parent node registry)
      (attempts parent rest (declare parent node ⟨registry, []⟩).registry)
end

/-- The rules of the first pass: what it attempts at trees that stand side by side inside a
parent, and what becomes of the registry. -/
inductive Walk : Option TypeId → List Node → Registry → List Attempt → Registry → Prop
  | nil {parent : Option TypeId} {registry : Registry} : Walk parent [] registry [] registry
  | passed {parent : Option TypeId} {node : Node} {rest : List Node}
      {registry middle done : Registry} {inner outer : List Attempt}
      (silent : node.declares = false ∨ node.children = [])
      (below : Walk none node.children registry inner middle)
      (behind : Walk parent rest middle outer done) :
      Walk parent (node :: rest) registry (Attempt.beside inner outer) done
  | registered {parent : Option TypeId} {node : Node} {rest : List Node}
      {registry grown middle done : Registry} {inner outer : List Attempt} {name : String}
      {id : TypeId} (declares : node.declares = true)
      (registers : Registers registry parent node name id grown)
      (below : Walk (node.scopeFor id) node.children grown inner middle)
      (behind : Walk parent rest middle outer done) :
      Walk parent (node :: rest) registry
        (Attempt.beside (⟨[], node, parent, .ok id⟩ :: inner) outer) done
  | skipped {parent : Option TypeId} {node : Node} {rest : List Node} {registry done : Registry}
      {outer : List Attempt} {error : CompileError} {scope : Option String}
      (declares : node.declares = true) (refuses : Refuses registry parent node error)
      (around : registry.scopeName parent = .ok scope)
      (behind : Walk parent rest registry outer done) :
      Walk parent (node :: rest) registry
        (Attempt.beside [⟨[], node, parent, .error ⟨error, scope⟩⟩] outer) done

section Rules

variable {parent : Option TypeId} {registry done : Registry} {nodes : List Node}
  {log : List Attempt}

/-- The first pass registers a node and goes on among its children, or skips it with all of them. -/
theorem declare_eq (parent : Option TypeId) (node : Node) (shells : Shells) :
    declare parent node shells =
      match registerNode shells.registry parent node with
      | .ok (some (id, registry)) =>
        declareAll (node.scopeFor id) node.children { shells with registry }
      | .ok none => declareAll none node.children shells
      | .error error => shells.skip parent error := by
  obtain ⟨kind, text, children, position⟩ := node
  cases children <;> rfl

/-- The attempts are listed along the same way. -/
theorem attemptsOf_eq (parent : Option TypeId) (node : Node) (registry : Registry) :
    attemptsOf parent node registry =
      match registerNode registry parent node with
      | .ok (some (id, grown)) =>
        ⟨[], node, parent, .ok id⟩ :: attempts (node.scopeFor id) node.children grown
      | .ok none => attempts none node.children registry
      | .error error => [⟨[], node, parent, .error (skipOf registry parent error)⟩] := by
  obtain ⟨kind, text, children, position⟩ := node
  cases children <;> rfl

/-- A skip is appended to those before it, and the registry is left alone. -/
theorem skip_eq (shells : Shells) (parent : Option TypeId) (error : CompileError) :
    shells.skip parent error =
      { shells with skips := shells.skips ++ [skipOf shells.registry parent error] } := by
  rw [skip, skipOf]
  cases shells.registry.scopeName parent <;> rfl

/-- What the rules derive is what the first pass does, whatever it has skipped before. -/
theorem Walk.declareAll_eq (walk : Walk parent nodes registry log done) (skips : List Skip) :
    declareAll parent nodes ⟨registry, skips⟩ = ⟨done, skips ++ log.filterMap Attempt.skip?⟩ := by
  induction walk generalizing skips with
  | nil => simp [declareAll]
  | passed silent _ _ below behind =>
    rw [declareAll, declare_eq, registerNode_eq_none_iff.mpr silent]
    dsimp only
    rw [below, behind, Attempt.filterMap_skip?_beside, List.append_assoc]
  | registered declares registers _ _ below behind =>
    rw [declareAll, declare_eq, registers.registerNode declares]
    dsimp only
    rw [below, behind, Attempt.filterMap_skip?_beside, List.append_assoc]
    rfl
  | @skipped parent _ _ registry _ _ error scope declares refuses around _ behind =>
    have skip : skipOf registry parent error = ⟨error, scope⟩ := by rw [skipOf, around]
    rw [declareAll, declare_eq, refuses.registerNode declares]
    dsimp only
    rw [skip_eq, behind, skip, Attempt.filterMap_skip?_beside, List.append_assoc]
    rfl

/-- The first pass is a run of its attempts. -/
theorem Walk.run {parent : Option TypeId} {nodes : List Node} {registry done : Registry}
    {log : List Attempt} (walk : Walk parent nodes registry log done) :
    Run registry log done := by
  induction walk with
  | nil => exact .nil
  | passed _ _ _ below behind => exact below.beside behind
  | registered _ registers _ _ below behind =>
    exact Run.beside (.registered registers rfl below) behind
  | skipped _ refuses _ _ behind => exact Run.beside (.skipped refuses rfl .nil) behind

/-- A node that is registered is a scope for what stands inside it. -/
theorem hasScope_scopeFor {node : Node} {name : String} {id : TypeId} {grown : Registry}
    (registers : Registers registry parent node name id grown) :
    grown.HasScope (node.scopeFor id) := by
  intro other same
  rw [scopeFor] at same
  split at same
  · rename_i kind
    obtain rfl := Option.some.inj same
    have found := getElem?_registered registers.success
    rw [kind] at found
    exact ⟨_, found⟩
  · simp at same

/-- The attempts of the first pass follow the rules. -/
theorem walk_attempts (nodes : List Node) (known : registry.HasScope parent) :
    ∃ done, Walk parent nodes registry (attempts parent nodes registry) done := by
  -- The scope has to stay a record of the registry on the way. It does, as registration keeps
  -- what is there, and so an attempt never fails for want of a scope.
  induction nodes using forest_induction generalizing parent registry with
  | nil => exact ⟨registry, .nil⟩
  | cons node rest children _ ih =>
    rw [attempts, attemptsOf_eq, declare_eq]
    by_cases silent : node.declares = false ∨ node.children = []
    · obtain ⟨middle, below⟩ := children (hasScope_none registry)
      obtain ⟨done, behind⟩ := ih (known.of_keeps below.run.keeps)
      rw [registerNode_eq_none_iff.mpr silent]
      dsimp only
      rw [below.declareAll_eq]
      exact ⟨done, .passed silent below behind⟩
    · rw [not_or, Bool.not_eq_false] at silent
      obtain ⟨declares, notEmpty⟩ := silent
      rcases registers_or_refuses known notEmpty with
        ⟨name, id, grown, registers⟩ | ⟨error, refuses⟩
      · obtain ⟨middle, below⟩ := children (hasScope_scopeFor registers)
        obtain ⟨done, behind⟩ :=
          ih ((known.of_keeps (keeps_of_register registers.success)).of_keeps below.run.keeps)
        rw [registers.registerNode declares]
        dsimp only
        rw [below.declareAll_eq]
        exact ⟨done, .registered declares registers below behind⟩
      · obtain ⟨scope, around⟩ := known.exists_scopeName
        obtain ⟨done, behind⟩ := ih known
        have skip : skipOf registry parent error = ⟨error, scope⟩ := by rw [skipOf, around]
        rw [refuses.registerNode declares]
        dsimp only
        rw [skip_eq, skip]
        exact ⟨done, .skipped declares refuses around behind⟩

end Rules

end Shells

end SchemaGraph
