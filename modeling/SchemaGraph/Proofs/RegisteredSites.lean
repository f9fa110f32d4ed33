import SchemaGraph.Proofs.Attempts

/-!
# The sites that the first pass registers

In a well-placed schema the first pass registers nothing but declarations at sites, under the
qualified names of the sites. It may skip some of them and all that stands inside, but nothing is
missing up to the first fault in a name: a declaration is registered inside the records of its path
as long as it and all declarations in front of it have fit, distinct and new names.
-/

namespace SchemaGraph

open Node Registry

/-- Without declaring nodes there are no sites of declarations. -/
theorem Site.declarations_of_barren {nodes : List Node} (barren : Barren nodes)
    (path : List String) : Site.declarations path nodes = [] := by
  induction nodes with
  | nil => rfl
  | cons node rest ih =>
    obtain ⟨silent, _, behind⟩ := (barren_cons node rest).mp barren
    rw [Site.declarations_cons_other path silent, ih behind]

section Sites

variable {node : Node} {rest : List Node}

/-- The children of well-placed nodes are well placed. -/
theorem WellPlaced.children (placed : WellPlaced (node :: rest)) : WellPlaced node.children :=
  ((wellPlaced_cons node rest).mp placed).2.1

/-- The sites below a declaration are those of its children. -/
theorem WellPlaced.declarations_cons (placed : WellPlaced (node :: rest))
    (declares : node.declares = true) (path : List String) :
    Site.declarations path (node :: rest) =
      ⟨path, node⟩ :: (Site.declarations (node.localName :: path) node.children ++
        Site.declarations path rest) := by
  cases declares_iff.mp declares with
  | inl kind =>
    rw [Site.declarations_cons_record path kind, Node.members]
    cases children : node.children with
    | nil => rfl
    | cons name others =>
      obtain ⟨silent, _⟩ := (barren_cons name []).mp (placed.of_children children).1
      rw [Site.declarations_cons_other _ silent]
      rfl
  | inr kind =>
    have barren := placed.barren_children (by simp [kind])
    rw [Site.declarations_cons_enumeration path kind, Site.declarations_of_barren barren]
    rfl

/-- A site in a tree with a declaration on top is the declaration, or it stands inside it as in a
record, or behind it. -/
theorem WellPlaced.split_declarations (placed : WellPlaced (node :: rest))
    (declares : node.declares = true) {path : List String} {before after : List Site} {site : Site}
    (split : Site.declarations path (node :: rest) = before ++ site :: after) :
    (before = [] ∧ site = ⟨path, node⟩) ∨
      (∃ inner more, before = ⟨path, node⟩ :: inner ∧ node.kind = .record ∧
        Site.declarations (node.localName :: path) node.children = inner ++ site :: more) ∨
      ∃ beyond, before =
          ⟨path, node⟩ :: (Site.declarations (node.localName :: path) node.children ++ beyond) ∧
        Site.declarations path rest = beyond ++ site :: after := by
  rw [placed.declarations_cons declares] at split
  cases before with
  | nil => exact .inl ⟨rfl, (List.cons.inj split).1.symm⟩
  | cons first inner =>
    obtain ⟨rfl, tail⟩ := List.cons.inj split
    cases Site.split_append tail with
    | inl within =>
      obtain ⟨more, within⟩ := within
      by_cases kind : node.kind = .record
      · exact .inr (.inl ⟨inner, more, rfl, kind, within⟩)
      · simp [Site.declarations_of_barren (placed.barren_children kind)] at within
    | inr behind =>
      obtain ⟨beyond, rfl, later⟩ := behind
      exact .inr (.inr ⟨beyond, rfl, later⟩)

/-- Nothing is declared below a node that declares nothing or has no children. -/
theorem WellPlaced.barren_of_passed (placed : WellPlaced (node :: rest))
    (passed : node.declares = false ∨ node.children = []) : Barren node.children := by
  cases passed with
  | inl silent => exact placed.barren_children (ne_record_of_silent silent)
  | inr empty => exact empty ▸ barren_nil

end Sites

/-- Inside records along a path a name is qualified by the path. -/
theorem Registry.Stands.qualify {registry : Registry} {path : List String} {scope : Option TypeId}
    (stands : registry.Stands path scope) (localName : String) :
    registry.qualify scope localName = .ok (Name.inside path localName) := by
  rw [Registry.qualify, scopeName_of_stands stands]
  cases path <;> rfl

section Registers

variable {registry grown : Registry} {parent : Option TypeId} {path : List String} {node : Node}
  {rest : List Node} {name : String} {id : TypeId}

/-- A declaration inside the records of a path is registered under its qualified name. -/
theorem Registers.name_eq (registers : Registers registry parent node name id grown)
    (stands : registry.Stands path parent) : name = Site.name ⟨path, node⟩ :=
  Except.ok.inj (registers.qualified.symm.trans (stands.qualify _))

/-- To register a node adds its name and no other. -/
theorem Registers.mem_names_iff (registers : Registers registry parent node name id grown)
    {other : String} : other ∈ grown.names ↔ other ∈ registry.names ∨ other = name := by
  rw [names_of_register registers.success, emptyShell_name, List.mem_append, List.mem_singleton]

/-- What is declared inside a record that is registered stands inside it. -/
theorem Registers.stands (registers : Registers registry parent node name id grown)
    (stands : registry.Stands path parent) (kind : node.kind = .record) :
    grown.Stands (node.localName :: path) (node.scopeFor id) := by
  rw [scopeFor, if_pos kind]
  refine ⟨id, _, rfl, getElem?_registered registers.success, ?_, ?_⟩
  · rw [emptyShell_name]
    exact registers.name_eq stands
  · rw [emptyShell_parent]
    exact stands.of_keeps (keeps_of_register registers.success)

end Registers

namespace Shells

variable {registry done : Registry} {parent : Option TypeId} {path : List String}
  {nodes : List Node} {log : List Attempt}

/-- Nothing is registered where nothing is declared. -/
theorem Walk.mem_names_of_barren (walk : Walk parent nodes registry log done)
    (barren : Barren nodes) {name : String} (listed : name ∈ done.names) :
    name ∈ registry.names := by
  induction walk with
  | nil => exact listed
  | passed _ _ _ belowIh behindIh =>
    obtain ⟨_, below, behind⟩ := (barren_cons _ _).mp barren
    exact belowIh below (behindIh behind listed)
  | registered declares | skipped declares =>
    simp [((barren_cons _ _).mp barren).1] at declares

/-- A declaration that is registered adds its name and the names inside it, given that this is what
a record adds. -/
private theorem Walk.mem_names_entered {node : Node} {rest : List Node} {grown middle : Registry}
    {taken name : String} {id : TypeId}
    (registers : Registers registry parent node taken id grown)
    (below : Walk (node.scopeFor id) node.children grown log middle)
    (placed : WellPlaced (node :: rest)) (stands : registry.Stands path parent)
    (inside : node.kind = .record → name ∈ grown.names ∨
      ∃ site ∈ Site.declarations (node.localName :: path) node.children, site.name = name)
    (listed : name ∈ middle.names) :
    name ∈ registry.names ∨
      ∃ site ∈ ⟨path, node⟩ :: Site.declarations (node.localName :: path) node.children,
        site.name = name := by
  have entered : name ∈ grown.names ∨
      ∃ site ∈ Site.declarations (node.localName :: path) node.children, site.name = name := by
    by_cases kind : node.kind = .record
    · exact inside kind
    · exact .inl (below.mem_names_of_barren (placed.barren_children kind) listed)
  rw [registers.mem_names_iff, registers.name_eq stands, or_assoc] at entered
  rw [List.exists_mem_cons_iff]
  exact entered.imp_right (.imp_left Eq.symm)

/-- The first pass adds no names but those of the sites. -/
theorem Walk.mem_names (walk : Walk parent nodes registry log done) (placed : WellPlaced nodes)
    (stands : registry.Stands path parent) {name : String} (listed : name ∈ done.names) :
    name ∈ registry.names ∨ ∃ site ∈ Site.declarations path nodes, site.name = name := by
  induction walk generalizing path with
  | nil => exact .inl listed
  | passed passed below _ _ behindIh =>
    have barren := placed.barren_of_passed passed
    obtain earlier | ⟨site, declared, named⟩ :=
      behindIh placed.rest (stands.of_keeps below.run.keeps) listed
    · exact .inl (below.mem_names_of_barren barren earlier)
    · exact .inr ⟨site, Site.mem_declarations_cons declared, named⟩
  | registered declares registers below _ belowIh behindIh =>
    have keeps := (keeps_of_register registers.success).trans below.run.keeps
    rw [placed.declarations_cons declares, ← List.cons_append]
    obtain earlier | ⟨site, declared, named⟩ :=
      behindIh placed.rest (stands.of_keeps keeps) listed
    · obtain before | ⟨site, declared, named⟩ :=
        below.mem_names_entered registers placed stands
          (fun kind => belowIh placed.children (registers.stands stands kind) earlier) earlier
      · exact .inl before
      · exact .inr ⟨site, List.mem_append_left _ declared, named⟩
    · exact .inr ⟨site, List.mem_append_right _ declared, named⟩
  | skipped _ _ _ _ behindIh =>
    refine (behindIh placed.rest stands listed).imp_right fun later => ?_
    obtain ⟨site, declared, named⟩ := later
    exact ⟨site, Site.mem_declarations_cons declared, named⟩

/-- The declaration of the site is registered inside the records of its path. -/
def Holds (registry : Registry) (site : Site) : Prop :=
  ∃ (id : TypeId) (declaration : Declaration), registry.declarations[id]? = some declaration ∧
    declaration.name = site.name ∧ declaration.kind = site.node.declaredKind ∧
    registry.Stands site.path declaration.parent

/-- What a registry holds of a site is kept. -/
theorem Holds.of_keeps {grown : Registry} (keeps : registry.Keeps grown) {site : Site}
    (holds : Holds registry site) : Holds grown site := by
  obtain ⟨id, declaration, found, named, kind, stands⟩ := holds
  obtain ⟨kept, keptFound, name', kind', parent'⟩ := keeps.names id declaration found
  exact ⟨id, kept, keptFound, name'.trans named, kind'.trans kind,
    parent' ▸ stands.of_keeps keeps⟩

/-- What is registered inside the records of a path is held. -/
theorem holds_of_registers {grown : Registry} {node : Node} {name : String} {id : TypeId}
    (registers : Registers registry parent node name id grown)
    (stands : registry.Stands path parent) : Holds grown ⟨path, node⟩ := by
  refine ⟨id, _, getElem?_registered registers.success, ?_, emptyShell_kind _ _ _, ?_⟩
  · rw [emptyShell_name]
    exact registers.name_eq stands
  · rw [emptyShell_parent]
    exact stands.of_keeps (keeps_of_register registers.success)

/-- The declarations have fit and distinct names that are not registered yet. -/
structure Registrable (registry : Registry) (sites : List Site) : Prop where
  named : ∀ site ∈ sites, site.node.HasLocalName
  distinct : (sites.map Site.name).Nodup
  fresh : ∀ site ∈ sites, site.name ∉ registry.names

/-- Sites that can be registered can be registered in part. -/
theorem Registrable.front {front back : List Site}
    (registrable : Registrable registry (front ++ back)) : Registrable registry front := by
  have distinct := registrable.distinct
  rw [List.map_append, List.nodup_append] at distinct
  exact ⟨fun site listed => registrable.named site (List.mem_append_left _ listed), distinct.1,
    fun site listed => registrable.fresh site (List.mem_append_left _ listed)⟩

/-- One more declaration can be registered if its name is fit and new. -/
theorem Registrable.concat {sites : List Site} (registrable : Registrable registry sites)
    {site : Site} (named : site.node.HasLocalName) (fresh : site.name ∉ registry.names)
    (new : ∀ other ∈ sites, other.name ≠ site.name) : Registrable registry (sites ++ [site]) := by
  refine ⟨?_, ?_, ?_⟩
  · exact List.forall_mem_append.mpr ⟨registrable.named, List.forall_mem_singleton.mpr named⟩
  · rw [List.map_append, List.nodup_append]
    refine ⟨registrable.distinct, List.nodup_singleton _, fun name listed last here same => ?_⟩
    obtain ⟨other, inSites, rfl⟩ := List.mem_map.mp listed
    rw [List.map_singleton, List.mem_singleton] at here
    exact new other inSites (same.trans here)
  · exact List.forall_mem_append.mpr ⟨registrable.fresh, List.forall_mem_singleton.mpr fresh⟩

/-- Declarations can be registered behind others whose names are all that has been added. -/
theorem Registrable.behind {grown : Registry} {front back : List Site}
    (registrable : Registrable registry (front ++ back))
    (added : ∀ name ∈ grown.names, name ∈ registry.names ∨ ∃ site ∈ front, site.name = name) :
    Registrable grown back := by
  have distinct := registrable.distinct
  rw [List.map_append, List.nodup_append] at distinct
  refine ⟨fun site listed => registrable.named site (List.mem_append_right _ listed), distinct.2.1,
    fun site listed taken => ?_⟩
  obtain earlier | ⟨other, inFront, same⟩ := added _ taken
  · exact registrable.fresh site (List.mem_append_right _ listed) earlier
  · exact distinct.2.2 _ (List.mem_map_of_mem inFront) _ (List.mem_map_of_mem listed) same

/-- Declarations can still be registered where trees that declare nothing have been passed. -/
theorem Registrable.passing {sites : List Site} (registrable : Registrable registry sites)
    (walk : Walk parent nodes registry log done) (barren : Barren nodes) :
    Registrable done sites :=
  ⟨registrable.named, registrable.distinct, fun site listed taken =>
    registrable.fresh site listed (walk.mem_names_of_barren barren taken)⟩

section Registered

variable {node : Node} {rest : List Node} {grown middle : Registry} {name : String} {id : TypeId}

/-- What stands inside a declaration can be registered behind it. -/
theorem Registrable.entering {inner : List Site}
    (registrable : Registrable registry (⟨path, node⟩ :: inner))
    (registers : Registers registry parent node name id grown)
    (stands : registry.Stands path parent) : Registrable grown inner := by
  have entering : Registrable registry ([⟨path, node⟩] ++ inner) := registrable
  refine entering.behind fun other listed => ?_
  rw [registers.mem_names_iff, registers.name_eq stands] at listed
  simpa [eq_comm] using listed

/-- The first pass enters a declaration that is registered, whatever stands behind it. -/
theorem Walk.alone (declares : node.declares = true)
    (registers : Registers registry parent node name id grown)
    (below : Walk (node.scopeFor id) node.children grown log middle)
    (placed : WellPlaced (node :: rest)) (path : List String) :
    Walk parent [node] registry (Attempt.beside (⟨[], node, parent, .ok id⟩ :: log) []) middle ∧
      WellPlaced [node] ∧ Site.declarations path [node] =
        ⟨path, node⟩ :: Site.declarations (node.localName :: path) node.children := by
  have alone : WellPlaced ([node] ++ rest) := placed
  refine ⟨.registered declares registers below .nil, alone.append_left, ?_⟩
  rw [alone.append_left.declarations_cons declares, Site.declarations_nil, List.append_nil]

/-- What stands behind a declaration can be registered behind it and all that stands inside it. -/
theorem Registrable.leaving {others : List Site} (registrable : Registrable registry
      (⟨path, node⟩ :: (Site.declarations (node.localName :: path) node.children ++ others)))
    (declares : node.declares = true)
    (registers : Registers registry parent node name id grown)
    (below : Walk (node.scopeFor id) node.children grown log middle)
    (placed : WellPlaced (node :: rest)) (stands : registry.Stands path parent) :
    Registrable middle others := by
  obtain ⟨walk, alone, sites⟩ := Walk.alone declares registers below placed path
  rw [← List.cons_append, ← sites] at registrable
  exact registrable.behind fun other listed => walk.mem_names alone stands listed

end Registered

/-- A declaration that is refused cannot be registered. -/
theorem not_registrable_of_refuses {node : Node} {error : CompileError}
    (refuses : Refuses registry parent node error) (stands : registry.Stands path parent)
    {sites : List Site} (listed : ⟨path, node⟩ ∈ sites) : ¬ Registrable registry sites := by
  intro registrable
  cases refuses with
  | unfit children unread =>
    obtain ⟨_, _, split, fit⟩ := registrable.named _ listed
    obtain ⟨rfl, _⟩ := List.cons.inj (children.symm.trans split)
    exact (declarationName_eq_error unread).1 fit
  | taken _ qualified taken =>
    obtain rfl := Except.ok.inj (qualified.symm.trans (stands.qualify _))
    exact registrable.fresh _ listed taken

/-- Wherever a list is split, its first element is in front of the split or at it. -/
theorem mem_front_of_split {α : Type} {first last : α} {rest before after : List α}
    (split : first :: rest = before ++ last :: after) : first ∈ before ++ [last] := by
  cases before <;> simp_all

/-- A declaration at a site is registered as soon as it and those in front of it can be. -/
theorem Walk.holds (walk : Walk parent nodes registry log done) (placed : WellPlaced nodes)
    (stands : registry.Stands path parent) {before after : List Site} {site : Site}
    (split : Site.declarations path nodes = before ++ site :: after)
    (registrable : Registrable registry (before ++ [site])) : Holds done site := by
  -- The names that the first pass has taken when it gets to a tree are those of the sites in front.
  induction walk generalizing path before after with
  | nil => simp [Site.declarations_nil] at split
  | @passed _ node _ _ _ _ _ _ passed below _ _ behindIh =>
    cases declares : node.declares with
    | false =>
      rw [Site.declarations_cons_other path declares] at split
      exact behindIh placed.rest (stands.of_keeps below.run.keeps) split
        (registrable.passing below (placed.barren_of_passed passed))
    | true =>
      have nameless : node.children = [] := passed.resolve_left (by simp [declares])
      rw [placed.declarations_cons declares] at split
      exact absurd nameless (registrable.named _ (mem_front_of_split split)).children_ne_nil
  | registered declares registers below behind belowIh behindIh =>
    have entered := keeps_of_register registers.success
    obtain ⟨rfl, rfl⟩ | ⟨inner, more, rfl, kind, within⟩ | ⟨beyond, rfl, later⟩ :=
      placed.split_declarations declares split
    · exact (holds_of_registers registers stands).of_keeps (below.run.keeps.trans behind.run.keeps)
    · have held := belowIh placed.children (registers.stands stands kind) within
        (registrable.entering registers stands)
      exact held.of_keeps behind.run.keeps
    · rw [List.cons_append, List.append_assoc] at registrable
      exact behindIh placed.rest (stands.of_keeps (entered.trans below.run.keeps)) later
        (registrable.leaving declares registers below placed stands)
  | skipped declares refuses =>
    rw [placed.declarations_cons declares] at split
    exact (not_registrable_of_refuses refuses stands (mem_front_of_split split) registrable).elim

end Shells

end SchemaGraph
