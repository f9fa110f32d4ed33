import SchemaGraph.Proofs.RegisteredSites

/-!
# The first declaration that is rejected

In a well-placed schema the first pass attempts the declarations at the sites one after the other,
as long as they can be registered. The attempt at the first one that cannot is the next one, and it
is skipped with the reason and with the qualified name of the innermost record around it.
-/

namespace SchemaGraph

open Node Registry

/-- A name that was registered stays registered. -/
theorem Registry.Keeps.mem_names {registry grown : Registry} (keeps : registry.Keeps grown)
    {name : String} (listed : name ∈ registry.names) : name ∈ grown.names := by
  obtain ⟨declaration, inRegistry, rfl⟩ := List.mem_map.mp listed
  obtain ⟨id, found⟩ := List.mem_iff_getElem?.mp inRegistry
  obtain ⟨kept, keptFound, same, _⟩ := keeps.names id declaration found
  exact same ▸ List.mem_map_of_mem (List.mem_of_getElem? keptFound)

namespace Attempt

/-- The attempts are made at the nodes of the sites, and all of them succeed. -/
structure RegisterAll (log : List Attempt) (sites : List Site) : Prop where
  nodes : log.map node = sites.map Site.node
  outcomes : ∀ attempt ∈ log, ∃ id, attempt.outcome = .ok id

/-- Without sites there is nothing to register. -/
theorem registerAll_nil : RegisterAll [] [] :=
  ⟨rfl, by simp⟩

/-- The attempts go through the sites in front, all of which are registered, and come to the site
next, which is skipped. -/
def SkipsFirst (log : List Attempt) (before : List Site) (site : Site) (skip : Skip) : Prop :=
  ∃ early attempt late, log = early ++ attempt :: late ∧ RegisterAll early before ∧
    attempt.node = site.node ∧ attempt.outcome = .error skip

section Lists

variable {log later : List Attempt} {sites before : List Site} {site : Site} {skip : Skip}

/-- To move addresses does not change the nodes. -/
theorem map_node_moved (move : List Nat → List Nat) (log : List Attempt) :
    (log.map (moved move)).map node = log.map node := by
  rw [List.map_map]
  rfl

/-- Moving the attempts to other addresses does not change what has been registered. -/
theorem RegisterAll.moved (all : RegisterAll log sites) (move : List Nat → List Nat) :
    RegisterAll (log.map (moved move)) sites := by
  refine ⟨(map_node_moved move log).trans all.nodes, fun _ listed => ?_⟩
  obtain ⟨attempt, inside, rfl⟩ := List.mem_map.mp listed
  exact all.outcomes attempt inside

/-- Attempts that all register something may be put together. -/
theorem RegisterAll.append (all : RegisterAll log sites) (others : RegisterAll later before) :
    RegisterAll (log ++ later) (sites ++ before) := by
  refine ⟨?_, List.forall_mem_append.mpr ⟨all.outcomes, others.outcomes⟩⟩
  rw [List.map_append, List.map_append, all.nodes, others.nodes]

/-- If all attempts at a node and all behind it register something, so do all of them. -/
theorem RegisterAll.beside (all : RegisterAll log sites) (others : RegisterAll later before) :
    RegisterAll (beside log later) (sites ++ before) :=
  (all.moved _).append (others.moved _)

/-- The node that is entered is registered in front of what is inside it. -/
theorem RegisterAll.entered {node : Node} {parent : Option TypeId} {path : List String}
    {id : TypeId} (all : RegisterAll log sites) :
    RegisterAll (⟨[], node, parent, .ok id⟩ :: log) (⟨path, node⟩ :: sites) :=
  have first : RegisterAll [⟨[], node, parent, .ok id⟩] [⟨path, node⟩] :=
    ⟨rfl, List.forall_mem_singleton.mpr ⟨id, rfl⟩⟩
  first.append all

/-- The first skip stays the first if everything in front of it is registered. -/
theorem SkipsFirst.append (skips : SkipsFirst later before site skip)
    (all : RegisterAll log sites) : SkipsFirst (log ++ later) (sites ++ before) site skip := by
  obtain ⟨early, attempt, late, rfl, registered, isNode, outcome⟩ := skips
  exact ⟨log ++ early, attempt, late, (List.append_assoc _ _ _).symm, all.append registered, isNode,
    outcome⟩

/-- A first skip among the children stays the first one with the registered node around it in front.
-/
theorem SkipsFirst.entered {node : Node} {parent : Option TypeId} {path : List String}
    {id : TypeId} (skips : SkipsFirst log before site skip) :
    SkipsFirst (⟨[], node, parent, .ok id⟩ :: log) (⟨path, node⟩ :: before) site skip :=
  have first : RegisterAll [⟨[], node, parent, .ok id⟩] [⟨path, node⟩] := registerAll_nil.entered
  skips.append first

/-- To move addresses does not change the first skip. -/
theorem SkipsFirst.moved (skips : SkipsFirst log before site skip) (move : List Nat → List Nat) :
    SkipsFirst (log.map (moved move)) before site skip := by
  obtain ⟨early, attempt, late, rfl, registered, isNode, outcome⟩ := skips
  exact ⟨_, attempt.moved move, late.map (Attempt.moved move), by simp, registered.moved move,
    isNode, outcome⟩

/-- A first skip at a node stays the first one, whatever is attempted behind the node. -/
theorem SkipsFirst.inside (skips : SkipsFirst log before site skip) (later : List Attempt) :
    SkipsFirst (Attempt.beside log later) before site skip := by
  obtain ⟨early, attempt, late, moved, first⟩ := skips.moved (List.cons 0)
  exact ⟨early, attempt, late ++ _, by rw [Attempt.beside, moved, List.append_assoc]; rfl, first⟩

/-- The first skip behind a node is the first of all if nothing inside the node is skipped. -/
theorem SkipsFirst.behind (skips : SkipsFirst later before site skip)
    (all : RegisterAll log sites) :
    SkipsFirst (Attempt.beside log later) (sites ++ before) site skip :=
  (skips.moved _).append (all.moved _)

end Lists

end Attempt

namespace Shells

open Attempt

/-- The declaration at a site is rejected for this reason if those in front of it are registered. -/
inductive Rejects (registry : Registry) (before : List Site) (site : Site) : CompileError → Prop
  | unfit {name : Node} {members : List Node} {error : CompileError}
      (children : site.node.children = name :: members)
      (unread : declarationName name = .error error) : Rejects registry before site error
  | taken (named : site.node.HasLocalName)
      (taken : site.name ∈ registry.names ∨ ∃ other ∈ before, other.name = site.name) :
      Rejects registry before site (.duplicateType site.name)

variable {registry grown done : Registry} {parent : Option TypeId} {path : List String}
  {nodes : List Node} {log : List Attempt} {before : List Site} {site : Site} {error : CompileError}

/-- What is rejected has a child that should be its name. -/
theorem Rejects.children_ne_nil (rejects : Rejects registry before site error) :
    site.node.children ≠ [] := by
  cases rejects with
  | unfit children => simp [children]
  | taken named => exact named.children_ne_nil

/-- What is rejected before anything else is registered is refused in its place. -/
theorem Rejects.refuses (rejects : Rejects registry [] site error)
    (stands : registry.Stands site.path parent) : Refuses registry parent site.node error := by
  cases rejects with
  | unfit children unread => exact .unfit children unread
  | taken named taken => exact .taken named (stands.qualify _) (by simpa using taken)

/-- A reason to reject a declaration stays one when some of those in front are registered. -/
theorem Rejects.behind {front : List Site} (rejects : Rejects registry (front ++ before) site error)
    (keeps : registry.Keeps grown) (held : ∀ other ∈ front, other.name ∈ grown.names) :
    Rejects grown before site error := by
  cases rejects with
  | unfit children unread => exact .unfit children unread
  | taken named taken =>
    refine .taken named ?_
    rcases taken with earlier | ⟨other, listed, same⟩
    · exact .inl (keeps.mem_names earlier)
    · rcases List.mem_append.mp listed with inFront | behind
      · exact .inl (same ▸ held other inFront)
      · exact .inr ⟨other, behind, same⟩

/-- Nothing is attempted where nothing is declared. -/
theorem Walk.log_of_barren (walk : Walk parent nodes registry log done) (barren : Barren nodes) :
    log = [] := by
  induction walk with
  | nil => rfl
  | passed _ _ _ belowIh behindIh =>
    obtain ⟨_, below, behind⟩ := (barren_cons _ _).mp barren
    rw [belowIh below, behindIh behind]
    rfl
  | registered declares | skipped declares =>
    simp [((barren_cons _ _).mp barren).1] at declares

section Registered

variable {node : Node} {rest : List Node} {middle : Registry} {name : String} {id : TypeId}

/-- The names of a declaration and of those inside it are taken when they are registered. -/
theorem Registrable.mem_names {others : List Site} (registrable : Registrable registry
      (⟨path, node⟩ :: (Site.declarations (node.localName :: path) node.children ++ others)))
    (declares : node.declares = true)
    (registers : Registers registry parent node name id grown)
    (below : Walk (node.scopeFor id) node.children grown log middle)
    (placed : WellPlaced (node :: rest)) (stands : registry.Stands path parent) :
    ∀ other ∈ ⟨path, node⟩ :: Site.declarations (node.localName :: path) node.children,
      other.name ∈ middle.names := by
  obtain ⟨walk, alone, sites⟩ := Walk.alone declares registers below placed path
  rw [← List.cons_append, ← sites] at registrable
  rw [← sites]
  intro other listed
  obtain ⟨earlier, later, split⟩ := List.append_of_mem listed
  rw [split, List.append_cons, List.append_assoc] at registrable
  obtain ⟨_, declaration, found, same, _⟩ := walk.holds alone stands split registrable.front
  exact same ▸ List.mem_map_of_mem (List.mem_of_getElem? found)

/-- What a declaration that is registered adds, given that this is what a record adds. -/
private theorem Walk.registerAll_entered
    (below : Walk (node.scopeFor id) node.children grown log middle)
    (placed : WellPlaced (node :: rest)) (parent : Option TypeId)
    (inside : node.kind = .record →
      RegisterAll log (Site.declarations (node.localName :: path) node.children)) :
    RegisterAll (⟨[], node, parent, .ok id⟩ :: log)
      (⟨path, node⟩ :: Site.declarations (node.localName :: path) node.children) := by
  by_cases kind : node.kind = .record
  · exact (inside kind).entered
  · have barren := placed.barren_children kind
    rw [below.log_of_barren barren, Site.declarations_of_barren barren]
    exact registerAll_nil.entered

end Registered

/-- Declarations that can all be registered are attempted one after the other. -/
theorem Walk.registerAll (walk : Walk parent nodes registry log done) (placed : WellPlaced nodes)
    (stands : registry.Stands path parent)
    (registrable : Registrable registry (Site.declarations path nodes)) :
    RegisterAll log (Site.declarations path nodes) := by
  induction walk generalizing path with
  | nil => exact registerAll_nil
  | @passed _ node _ _ _ _ _ _ passed below _ _ behindIh =>
    cases declares : node.declares with
    | false =>
      have barren := placed.barren_of_passed passed
      rw [Site.declarations_cons_other path declares] at registrable ⊢
      have others := behindIh placed.rest (stands.of_keeps below.run.keeps)
        (registrable.passing below barren)
      rw [below.log_of_barren barren]
      exact registerAll_nil.beside others
    | true =>
      have nameless : node.children = [] := passed.resolve_left (by simp [declares])
      rw [placed.declarations_cons declares] at registrable
      exact absurd nameless (registrable.named _ List.mem_cons_self).children_ne_nil
  | @registered parent _ _ _ _ _ _ _ _ _ _ declares registers below _ belowIh behindIh =>
    have keeps := (keeps_of_register registers.success).trans below.run.keeps
    rw [placed.declarations_cons declares] at registrable ⊢
    have entered := below.registerAll_entered placed parent fun kind =>
      belowIh placed.children (registers.stands stands kind)
        (registrable.entering registers stands).front
    have others := behindIh placed.rest (stands.of_keeps keeps)
      (registrable.leaving declares registers below placed stands)
    exact entered.beside others
  | skipped declares refuses =>
    rw [placed.declarations_cons declares] at registrable
    exact (not_registrable_of_refuses refuses stands List.mem_cons_self registrable).elim

/-- The first declaration that is rejected is skipped, with all in front of it being registered. -/
theorem Walk.skipsFirst (walk : Walk parent nodes registry log done) (placed : WellPlaced nodes)
    (stands : registry.Stands path parent) {after : List Site}
    (split : Site.declarations path nodes = before ++ site :: after)
    (registrable : Registrable registry before) (rejects : Rejects registry before site error) :
    SkipsFirst log before site ⟨error, Name.ofPath? site.path⟩ := by
  -- The first tree holds the site, or the front reaches beyond it and the whole tree is registered.
  induction walk generalizing path before after with
  | nil => simp [Site.declarations_nil] at split
  | @passed _ node _ _ _ _ _ _ passed below _ _ behindIh =>
    cases declares : node.declares with
    | false =>
      have barren := placed.barren_of_passed passed
      rw [Site.declarations_cons_other path declares] at split
      have others := behindIh placed.rest (stands.of_keeps below.run.keeps) split
        (registrable.passing below barren)
        (Rejects.behind (show Rejects _ ([] ++ before) site error from rejects) below.run.keeps
          (by simp))
      rw [below.log_of_barren barren]
      exact others.behind registerAll_nil
    | true =>
      have nameless : node.children = [] := passed.resolve_left (by simp [declares])
      rw [placed.declarations_cons declares] at split
      cases before with
      | nil =>
        obtain ⟨rfl, _⟩ := List.cons.inj split
        exact absurd nameless rejects.children_ne_nil
      | cons first before =>
        obtain ⟨rfl, _⟩ := List.cons.inj split
        exact absurd nameless (registrable.named _ List.mem_cons_self).children_ne_nil
  | @registered parent node _ _ _ _ _ _ _ _ _ declares registers below _ belowIh behindIh =>
    have entered := keeps_of_register registers.success
    have keeps := entered.trans below.run.keeps
    obtain ⟨rfl, rfl⟩ | ⟨inner, more, rfl, kind, within⟩ | ⟨beyond, rfl, later⟩ :=
      placed.split_declarations declares split
    · have refused := (rejects.refuses stands).registerNode declares
      simp [registers.registerNode declares] at refused
    · have here : ∀ other ∈ [Site.mk path node], other.name ∈ Registry.names _ :=
        List.forall_mem_singleton.mpr
          (registers.mem_names_iff.mpr (.inr (registers.name_eq stands).symm))
      have skips := belowIh placed.children (registers.stands stands kind) within
        (registrable.entering registers stands) (rejects.behind entered here)
      exact skips.entered.inside _
    · rw [← List.cons_append] at rejects
      have skips := behindIh placed.rest (stands.of_keeps keeps) later
        (registrable.leaving declares registers below placed stands)
        (rejects.behind keeps (registrable.mem_names declares registers below placed stands))
      refine skips.behind (below.registerAll_entered placed parent fun kind => ?_)
      exact below.registerAll placed.children (registers.stands stands kind)
        (registrable.entering registers stands).front
  | @skipped _ node _ registry _ _ error' scope declares refuses around =>
    rw [placed.declarations_cons declares] at split
    cases before with
    | nil =>
      obtain ⟨rfl, _⟩ := List.cons.inj split
      have refused := (rejects.refuses stands).registerNode declares
      rw [refuses.registerNode declares] at refused
      obtain rfl := Except.error.inj refused
      obtain rfl := Except.ok.inj (around.symm.trans (scopeName_of_stands stands))
      exact SkipsFirst.inside ⟨[], _, [], rfl, registerAll_nil, rfl, rfl⟩ _
    | cons first before =>
      obtain ⟨rfl, _⟩ := List.cons.inj split
      exact (not_registrable_of_refuses refuses stands List.mem_cons_self registrable).elim

end Shells

end SchemaGraph
