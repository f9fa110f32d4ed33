import Mathlib.Data.List.Nodup
import SchemaGraph.Proofs.Sites

/-!
# Distinct names

The names of a schema clash only between siblings: if no two declarations that stand side by
side share a local name, and local names have no dots, then no two declarations of the whole
schema share a qualified name.
-/

namespace SchemaGraph

open Node

/-- The local names that are declared by nodes that stand side by side. -/
def declaredNames (nodes : List Node) : List String :=
  (nodes.filter Node.declares).map Node.localName

/-- No two declarations that stand side by side have the same local name, at the top level and
inside every record. -/
def SiblingsDistinct (path : List String) (nodes : List Node) : Prop :=
  (declaredNames nodes).Nodup ∧
    ∀ site ∈ Site.declarations path nodes, site.node.kind = .record →
      (declaredNames site.node.members).Nodup

instance (path : List String) (nodes : List Node) : Decidable (SiblingsDistinct path nodes) :=
  inferInstanceAs (Decidable (_ ∧ _))

/-- A declaring node declares its local name in front of those behind it. -/
theorem declaredNames_cons {node : Node} (declares : node.declares = true) (rest : List Node) :
    declaredNames (node :: rest) = node.localName :: declaredNames rest := by
  simp [declaredNames, declares]

/-- A node that is no record and no enumeration declares no name. -/
theorem declaredNames_cons_other {node : Node} (silent : node.declares = false)
    (rest : List Node) : declaredNames (node :: rest) = declaredNames rest := by
  simp [declaredNames, silent]

namespace Site

/-- Every declaration stands at or below one of the nodes that are listed side by side. -/
theorem sibling_suffix {path : List String} {nodes : List Node} {site : Site}
    (found : site ∈ declarations path nodes) :
    ∃ localName ∈ declaredNames nodes, (localName :: path) <:+ site.innerPath := by
  induction nodes using declaration_induction with
  | nil => simp [declarations_nil] at found
  | record node rest kind _ ih =>
    rw [declarations_cons_record path kind, List.mem_cons, List.mem_append] at found
    rw [declaredNames_cons (declares_of_record kind)]
    rcases found with rfl | inner | behind
    · exact ⟨_, List.mem_cons_self, List.suffix_refl _⟩
    · have deeper := path_suffix (List.mem_filter.mp inner).1
      exact ⟨_, List.mem_cons_self, deeper.trans (List.suffix_cons _ _)⟩
    · obtain ⟨localName, listed, suffix⟩ := ih behind
      exact ⟨localName, List.mem_cons_of_mem _ listed, suffix⟩
  | enumeration node rest kind ih =>
    rw [declarations_cons_enumeration path kind, List.mem_cons] at found
    rw [declaredNames_cons (declares_of_enumeration kind)]
    rcases found with rfl | behind
    · exact ⟨_, List.mem_cons_self, List.suffix_refl _⟩
    · obtain ⟨localName, listed, suffix⟩ := ih behind
      exact ⟨localName, List.mem_cons_of_mem _ listed, suffix⟩
  | other node rest silent ih =>
    rw [declarations_cons_other path silent] at found
    rw [declaredNames_cons_other silent]
    exact ih found

/-- Two declarations at or below siblings of different local names have different paths. -/
private theorem mem_declaredNames_of_suffix {path : List String} {nodes : List Node}
    {localName : String} {site : Site} (found : site ∈ declarations path nodes)
    (suffix : (localName :: path) <:+ site.innerPath) : localName ∈ declaredNames nodes := by
  obtain ⟨other, listed, otherSuffix⟩ := sibling_suffix found
  have same : localName :: path = other :: path :=
    (List.suffix_of_suffix_length_le suffix otherSuffix (by simp)).eq_of_length (by simp)
  rw [(List.cons.inj same).1]
  exact listed

/-- The declarations that stand side by side are some of all declarations. -/
theorem siblings_sublist (path : List String) (nodes : List Node) :
    ((nodes.filter Node.declares).map (Site.mk path)).Sublist (declarations path nodes) := by
  induction nodes using declaration_induction with
  | nil => exact List.Sublist.refl _
  | record node rest kind _ ih =>
    rw [List.filter_cons_of_pos (declares_of_record kind), declarations_cons_record path kind]
    exact (ih.trans (List.sublist_append_right _ _)).cons_cons _
  | enumeration node rest kind ih =>
    rw [List.filter_cons_of_pos (declares_of_enumeration kind),
      declarations_cons_enumeration path kind]
    exact ih.cons_cons _
  | other node rest silent ih =>
    rwa [List.filter_cons_of_neg (by simp [silent]), declarations_cons_other path silent]

/-- The declarations inside a record are some of all declarations. -/
theorem members_sublist {path : List String} {nodes : List Node} {site : Site}
    (found : site ∈ declarations path nodes) (record : site.node.kind = .record) :
    (declarations site.innerPath site.node.members).Sublist (declarations path nodes) := by
  induction nodes using declaration_induction generalizing path with
  | nil => simp [declarations_nil] at found
  | record node rest kind members ih =>
    rw [declarations_cons_record path kind, List.mem_cons, List.mem_append] at found
    rw [declarations_cons_record path kind]
    rcases found with rfl | inner | behind
    · exact (List.sublist_append_left _ _).cons _
    · exact ((members inner).trans (List.sublist_append_left _ _)).cons _
    · exact ((ih behind).trans (List.sublist_append_right _ _)).cons _
  | enumeration node rest kind ih =>
    rw [declarations_cons_enumeration path kind, List.mem_cons] at found
    rw [declarations_cons_enumeration path kind]
    rcases found with rfl | behind
    · simp [kind] at record
    · exact (ih behind).cons _
  | other node rest silent ih =>
    rw [declarations_cons_other path silent] at found ⊢
    exact ih found

/-- Declarations of distinct paths have siblings of distinct local names. -/
theorem siblingsDistinct_of_nodup {path : List String} {nodes : List Node}
    (distinct : ((declarations path nodes).map innerPath).Nodup) : SiblingsDistinct path nodes := by
  have sideBySide (outer : List String) (list : List Node)
      (listed : (declarations outer list).Sublist (declarations path nodes)) :
      (declaredNames list).Nodup := by
    have sublist := ((siblings_sublist outer list).trans listed).map innerPath
    rw [List.map_map] at sublist
    refine List.Nodup.of_map (· :: outer) ?_
    rw [declaredNames, List.map_map]
    exact distinct.sublist sublist
  exact ⟨sideBySide path nodes (List.Sublist.refl _),
    fun site found record => sideBySide _ _ (members_sublist found record)⟩

/-- Nothing is declared at the path of a local name that no declaration shares. -/
private theorem notMem_innerPath {path : List String} {nodes : List Node} {localName : String}
    (unshared : localName ∉ declaredNames nodes) :
    (localName :: path) ∉ (declarations path nodes).map innerPath := by
  intro listed
  obtain ⟨site, found, same⟩ := List.mem_map.mp listed
  exact unshared (mem_declaredNames_of_suffix found (same ▸ List.suffix_refl _))

/-- A declaration is not inside itself. -/
private theorem notMem_innerPath_self (path : List String) (nodes : List Node) :
    path ∉ (declarations path nodes).map innerPath := by
  intro listed
  obtain ⟨site, found, same⟩ := List.mem_map.mp listed
  have shorter := (path_suffix (List.mem_filter.mp found).1).length_le
  have longer : path.length = site.path.length + 1 := congrArg List.length same.symm
  omega

/-- Nothing is declared at a path that leads through a local name that no declaration shares. -/
private theorem innerPath_ne_of_within {path : List String} {members nodes : List Node}
    {localName : String} (unshared : localName ∉ declaredNames nodes) {site other : Site}
    (within : site ∈ declarations (localName :: path) members)
    (found : other ∈ declarations path nodes) : site.innerPath ≠ other.innerPath := by
  intro same
  have deeper : (localName :: path) <:+ site.innerPath :=
    (path_suffix (List.mem_filter.mp within).1).trans (List.suffix_cons _ _)
  exact unshared (mem_declaredNames_of_suffix found (same ▸ deeper))

/-- If siblings have distinct local names, all declarations have distinct paths. -/
theorem nodup_innerPath {path : List String} {nodes : List Node}
    (distinct : SiblingsDistinct path nodes) :
    ((declarations path nodes).map innerPath).Nodup := by
  induction nodes using declaration_induction generalizing path with
  | nil => simp [declarations_nil]
  | record node rest kind members ih =>
    obtain ⟨siblings, inner⟩ := distinct
    rw [declaredNames_cons (declares_of_record kind), List.nodup_cons] at siblings
    rw [declarations_cons_record path kind] at inner ⊢
    have below : SiblingsDistinct (node.localName :: path) node.members :=
      ⟨inner ⟨path, node⟩ List.mem_cons_self kind, fun site found =>
        inner site (List.mem_cons_of_mem _ (List.mem_append_left _ found))⟩
    have behind : SiblingsDistinct path rest :=
      ⟨siblings.2, fun site found =>
        inner site (List.mem_cons_of_mem _ (List.mem_append_right _ found))⟩
    rw [List.map_cons, List.map_append, List.nodup_cons, List.nodup_append, List.mem_append, not_or]
    refine ⟨⟨notMem_innerPath_self _ _, notMem_innerPath siblings.1⟩, members below, ih behind, ?_⟩
    -- What is behind the record does not stand below its path.
    intro first inside second outside
    obtain ⟨site, within, rfl⟩ := List.mem_map.mp inside
    obtain ⟨other, later, rfl⟩ := List.mem_map.mp outside
    exact innerPath_ne_of_within siblings.1 within later
  | enumeration node rest kind ih =>
    obtain ⟨siblings, inner⟩ := distinct
    rw [declaredNames_cons (declares_of_enumeration kind), List.nodup_cons] at siblings
    rw [declarations_cons_enumeration path kind] at inner ⊢
    rw [List.map_cons, List.nodup_cons]
    exact ⟨notMem_innerPath siblings.1,
      ih ⟨siblings.2, fun site found => inner site (List.mem_cons_of_mem _ found)⟩⟩
  | other node rest silent ih =>
    rw [declarations_cons_other path silent]
    rw [SiblingsDistinct, declaredNames_cons_other silent, declarations_cons_other path silent]
      at distinct
    exact ih distinct

/-- All names that make up the path of a declaration are free of dots. -/
theorem dotFree_innerPath {path : List String} {nodes : List Node}
    (outer : ∀ name ∈ path, Name.DotFree name)
    (free : ∀ site ∈ declarations path nodes, Name.DotFree site.node.localName) :
    ∀ site ∈ declarations path nodes, ∀ name ∈ site.innerPath, Name.DotFree name := by
  induction nodes using declaration_induction generalizing path with
  | nil => simp [declarations_nil]
  | record node rest kind members ih =>
    rw [declarations_cons_record path kind, List.forall_mem_cons, List.forall_mem_append] at free ⊢
    obtain ⟨here, inner, behind⟩ := free
    have innerPath : ∀ name ∈ node.localName :: path, Name.DotFree name :=
      List.forall_mem_cons.mpr ⟨here, outer⟩
    exact ⟨innerPath, members innerPath inner, ih outer behind⟩
  | enumeration node rest kind ih =>
    rw [declarations_cons_enumeration path kind, List.forall_mem_cons] at free ⊢
    exact ⟨List.forall_mem_cons.mpr ⟨free.1, outer⟩, ih outer free.2⟩
  | other node rest silent ih =>
    rw [declarations_cons_other path silent] at free ⊢
    exact ih outer free

/-- Qualified names are distinct exactly if no two siblings share a local name, provided that
local names have no dots. -/
theorem nodup_name_iff {nodes : List Node}
    (free : ∀ site ∈ declarations [] nodes, Name.DotFree site.node.localName) :
    ((declarations [] nodes).map name).Nodup ↔ SiblingsDistinct [] nodes := by
  have pathsFree := dotFree_innerPath (by simp) free
  constructor
  · intro distinct
    apply siblingsDistinct_of_nodup
    refine List.Nodup.of_map (fun path => Name.inside path.tail (path.headD "")) ?_
    rwa [List.map_map]
  · intro distinct
    have paths := nodup_innerPath distinct
    refine List.Nodup.map_on ?_ (List.Nodup.of_map _ paths)
    intro first hfirst second hsecond names
    have parts := Name.inside_inj (pathsFree first hfirst) (pathsFree second hsecond) names
    refine List.inj_on_of_nodup_map paths hfirst hsecond ?_
    rw [innerPath, innerPath, parts.1, parts.2]

end Site

end SchemaGraph
