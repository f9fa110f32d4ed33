import Mathlib.Data.List.Infix
import SchemaGraph.Node
import SchemaGraph.Proofs.QualifiedNames

/-!
# The sites of a schema

A site is a node of the top level or a member of a record, together with the path of the records
around it. The sites of a schema are listed in document order, a record in front of its members.
In a well-placed schema every record and every enumeration stands at a site, so the declaring
sites are all declarations of the schema.
-/

namespace SchemaGraph

namespace Node

/-- The node declares a record or an enumeration. -/
def declares (node : Node) : Bool :=
  node.kind == .record || node.kind == .enumeration

/-- The local name that a declaration gives. -/
def localName (node : Node) : String :=
  node.firstChildText?.getD ""

/-- The children behind the name. -/
def members (node : Node) : List Node :=
  node.children.tail

mutual
/-- The node and everything below it, in document order. -/
def subnodes : Node → List Node
  | ⟨kind, text, children, position⟩ => ⟨kind, text, children, position⟩ :: subnodesIn children
/-- All nodes of a list and everything below them, in document order. -/
def subnodesIn : List Node → List Node
  | [] => []
  | node :: rest => node.subnodes ++ subnodesIn rest
end

mutual
/-- The induction for a single node, which yields what holds of its children and of its members. -/
private theorem forest_node {P : List Node → Prop} (nil : P [])
    (cons : ∀ node rest, P node.children → P node.members → P rest → P (node :: rest)) :
    (node : Node) → P node.children ∧ P node.members
  | ⟨_, _, [], _⟩ => ⟨nil, nil⟩
  | ⟨_, _, name :: members, _⟩ =>
    ⟨forest_list nil cons (name :: members), forest_list nil cons members⟩
/-- The induction for nodes side by side. -/
private theorem forest_list {P : List Node → Prop} (nil : P [])
    (cons : ∀ node rest, P node.children → P node.members → P rest → P (node :: rest)) :
    (nodes : List Node) → P nodes
  | [] => nil
  | node :: rest =>
    cons node rest (forest_node nil cons node).1 (forest_node nil cons node).2
      (forest_list nil cons rest)
end

/-- Induction over a list of trees: its first tree may be entered with or without the name. -/
theorem forest_induction {P : List Node → Prop} (nil : P [])
    (cons : ∀ node rest, P node.children → P node.members → P rest → P (node :: rest))
    (nodes : List Node) : P nodes :=
  forest_list nil cons nodes

/-- Records and enumerations declare something. -/
theorem declares_iff {node : Node} :
    node.declares = true ↔ node.kind = .record ∨ node.kind = .enumeration := by
  simp [declares]

/-- Every record declares something. -/
theorem declares_of_record {node : Node} (kind : node.kind = .record) : node.declares = true :=
  declares_iff.mpr (.inl kind)

/-- Every enumeration declares something. -/
theorem declares_of_enumeration {node : Node} (kind : node.kind = .enumeration) :
    node.declares = true :=
  declares_iff.mpr (.inr kind)

/-- What declares nothing is no record, so nothing stands inside it. -/
theorem ne_record_of_silent {node : Node} (silent : node.declares = false) :
    node.kind ≠ .record := by
  intro kind
  simp [declares, kind] at silent

/-- Induction over the declarations of a list of trees: a record is entered, an enumeration is
not, and other nodes are passed over. -/
theorem declaration_induction {P : List Node → Prop} (nil : P [])
    (record : ∀ node rest, node.kind = .record → P node.members → P rest → P (node :: rest))
    (enumeration : ∀ node rest, node.kind = .enumeration → P rest → P (node :: rest))
    (other : ∀ node rest, node.declares = false → P rest → P (node :: rest))
    (nodes : List Node) : P nodes := by
  induction nodes using forest_induction with
  | nil => exact nil
  | cons node rest _ members ih =>
    cases declares : node.declares with
    | false => exact other node rest declares ih
    | true =>
      rcases declares_iff.mp declares with kind | kind
      · exact record node rest kind members ih
      · exact enumeration node rest kind ih

/-- The nodes of trees are the first root, what is below it, and the nodes of the other trees. -/
theorem subnodesIn_cons (node : Node) (rest : List Node) :
    subnodesIn (node :: rest) = node :: (subnodesIn node.children ++ subnodesIn rest) := by
  cases node
  simp [subnodesIn, subnodes]

/-- The nodes inside a list of trees are those of the trees one by one. -/
theorem subnodesIn_eq_flatMap (nodes : List Node) :
    subnodesIn nodes = nodes.flatMap subnodes := by
  induction nodes with
  | nil => rfl
  | cons node rest ih => rw [subnodesIn, ih, List.flatMap_cons]

/-- What holds throughout a list of trees holds at its first root, below it and behind it. -/
theorem forall_subnodesIn_cons {P : Node → Prop} (node : Node) (rest : List Node) :
    (∀ other ∈ subnodesIn (node :: rest), P other) ↔
      P node ∧ (∀ other ∈ subnodesIn node.children, P other) ∧
        ∀ other ∈ subnodesIn rest, P other := by
  simp only [subnodesIn_cons, List.mem_cons, List.mem_append, or_imp, forall_and, forall_eq]

end Node

open Node

/-- Every record and every enumeration stands at the top level or is a member of a record, but
not its name. -/
def WellPlaced (nodes : List Node) : Prop :=
  ∀ node ∈ subnodesIn nodes, ∀ (index : Nat) (child : Node),
    node.children[index]? = some child → child.declares = true → node.kind = .record ∧ index ≠ 0

/-- Nothing is declared at or below any of the nodes. -/
def Barren (nodes : List Node) : Prop :=
  ∀ node ∈ subnodesIn nodes, node.declares = false

/-- Without nodes nothing is declared. -/
theorem barren_nil : Barren [] := by
  simp [Barren, subnodesIn]

/-- Nodes are barren if each of them declares nothing, itself or below. -/
theorem barren_cons (node : Node) (rest : List Node) :
    Barren (node :: rest) ↔ node.declares = false ∧ Barren node.children ∧ Barren rest :=
  forall_subnodesIn_cons node rest

/-- Declarations are well placed if those of each tree are. -/
theorem wellPlaced_cons (node : Node) (rest : List Node) :
    WellPlaced (node :: rest) ↔
      (∀ (index : Nat) (child : Node), node.children[index]? = some child →
        child.declares = true → node.kind = .record ∧ index ≠ 0) ∧
      WellPlaced node.children ∧ WellPlaced rest :=
  forall_subnodesIn_cons node rest

/-- Well-placedness looks at every node and its children only. -/
theorem wellPlaced_iff {nodes : List Node} :
    WellPlaced nodes ↔ ∀ node ∈ subnodesIn nodes,
      (∀ child ∈ node.children, child.declares = true → node.kind = .record) ∧
        ∀ name ∈ node.children.head?, name.declares = false := by
  refine forall₂_congr fun node _ => ?_
  constructor
  · intro atNode
    refine ⟨fun child listed declares => ?_, fun name first => ?_⟩
    · obtain ⟨index, found⟩ := List.mem_iff_getElem?.mp listed
      exact (atNode index child found declares).1
    · rw [List.head?_eq_getElem?, Option.mem_def] at first
      by_contra declares
      exact (atNode 0 name first (by simpa using declares)).2 rfl
  · rintro ⟨inRecord, name⟩ index child found declares
    refine ⟨inRecord child (List.mem_of_getElem? found) declares, ?_⟩
    rintro rfl
    rw [← List.head?_eq_getElem?] at found
    simp [name child found] at declares

instance (nodes : List Node) : Decidable (Barren nodes) :=
  inferInstanceAs (Decidable (∀ node ∈ subnodesIn nodes, node.declares = false))

instance (nodes : List Node) : Decidable (WellPlaced nodes) :=
  decidable_of_iff _ wellPlaced_iff.symm

/-- Nothing is declared below nodes that declare nothing themselves. -/
theorem WellPlaced.barren {nodes : List Node} (placed : WellPlaced nodes)
    (silent : ∀ node ∈ nodes, node.declares = false) : Barren nodes := by
  induction nodes using forest_induction with
  | nil => exact barren_nil
  | cons node rest children _ ih =>
    obtain ⟨atNode, below, behind⟩ := (wellPlaced_cons node rest).mp placed
    have here : node.declares = false := silent node List.mem_cons_self
    refine (barren_cons node rest).mpr ⟨here, children below ?_, ih behind ?_⟩
    · intro child hchild
      obtain ⟨index, found⟩ := List.mem_iff_getElem?.mp hchild
      by_contra declares
      have inRecord := (atNode index child found (by simpa using declares)).1
      simp [Node.declares, inRecord] at here
    · exact fun other hother => silent other (List.mem_cons_of_mem _ hother)

/-- A node that is no record holds no declarations. -/
theorem WellPlaced.barren_children {node : Node} {rest : List Node}
    (placed : WellPlaced (node :: rest)) (other : node.kind ≠ .record) : Barren node.children := by
  obtain ⟨atNode, below, _⟩ := (wellPlaced_cons node rest).mp placed
  apply below.barren
  intro child hchild
  obtain ⟨index, found⟩ := List.mem_iff_getElem?.mp hchild
  by_contra declares
  exact other (atNode index child found (by simpa using declares)).1

/-- The name of a node holds no declarations, and its members are well placed again. -/
theorem WellPlaced.of_children {node name : Node} {members rest : List Node}
    (placed : WellPlaced (node :: rest)) (children : node.children = name :: members) :
    Barren [name] ∧ WellPlaced members := by
  obtain ⟨atNode, below, _⟩ := (wellPlaced_cons node rest).mp placed
  rw [children] at atNode below
  obtain ⟨atName, belowName, behind⟩ := (wellPlaced_cons name members).mp below
  have silent : name.declares = false := by
    by_contra declares
    exact (atNode 0 name rfl (by simpa using declares)).2 rfl
  have placedName : WellPlaced [name] :=
    (wellPlaced_cons name []).mpr ⟨atName, belowName, by simp [WellPlaced, subnodesIn]⟩
  exact ⟨placedName.barren (by simpa using silent), behind⟩

/-- The members of a well-placed node are well placed. -/
theorem WellPlaced.members {node : Node} {rest : List Node} (placed : WellPlaced (node :: rest)) :
    WellPlaced node.members := by
  cases children : node.children with
  | nil => simp [Node.members, children, WellPlaced, subnodesIn]
  | cons name members =>
    rw [Node.members, children]
    exact (placed.of_children children).2

/-- A part of well-placed nodes is well placed. -/
theorem WellPlaced.append_left {front back : List Node} (placed : WellPlaced (front ++ back)) :
    WellPlaced front := by
  intro node listed
  refine placed node ?_
  rw [subnodesIn_eq_flatMap, List.flatMap_append, ← subnodesIn_eq_flatMap]
  exact List.mem_append_left _ listed

/-- If nodes are well placed, those behind the first are. -/
theorem WellPlaced.rest {node : Node} {rest : List Node} (placed : WellPlaced (node :: rest)) :
    WellPlaced rest :=
  ((wellPlaced_cons node rest).mp placed).2.2

/-- A node of the top level or a member of a record, and the path of the records around it. -/
structure Site where
  path : List String
  node : Node

namespace Site

/-- The qualified name of what the site declares. -/
def name (site : Site) : String :=
  Name.inside site.path site.node.localName

/-- The path of what stands inside the record of the site. -/
def innerPath (site : Site) : List String :=
  site.node.localName :: site.path

mutual
/-- The site of a node, and if it is a record the sites of its members. -/
def ofNode (path : List String) : Node → List Site
  | ⟨kind, text, children, position⟩ =>
    ⟨path, ⟨kind, text, children, position⟩⟩ ::
      match kind, children with
      | .record, name :: members => inside (name.text :: path) members
      | _, _ => []
/-- The sites of nodes that stand side by side, in document order. -/
def inside (path : List String) : List Node → List Site
  | [] => []
  | node :: rest => ofNode path node ++ inside path rest
end

/-- Without nodes there are no sites. -/
theorem inside_nil (path : List String) : inside path [] = [] := rfl

/-- The sites of nodes are those of the nodes one by one. -/
theorem inside_eq_flatMap (path : List String) (nodes : List Node) :
    inside path nodes = nodes.flatMap (ofNode path) := by
  induction nodes with
  | nil => rfl
  | cons node rest ih => rw [inside, ih, List.flatMap_cons]

/-- A node is a site, and only a record has sites inside of it. -/
theorem inside_cons (path : List String) (node : Node) (rest : List Node) :
    inside path (node :: rest) =
      ⟨path, node⟩ ::
        ((if node.kind = .record then inside (node.localName :: path) node.members else []) ++
          inside path rest) := by
  obtain ⟨kind, text, children, position⟩ := node
  cases children with
  | nil => cases kind <;> simp [inside, ofNode, Node.members]
  | cons name members =>
    cases kind <;> simp [inside, ofNode, Node.members, Node.localName, Node.firstChildText?]

/-- The sites among nodes that stand side by side that declare something. -/
def declarations (path : List String) (nodes : List Node) : List Site :=
  (inside path nodes).filter fun site => site.node.declares

/-- Without nodes nothing is declared. -/
theorem declarations_nil (path : List String) : declarations path [] = [] := rfl

/-- A record is declared in front of what is inside it. -/
theorem declarations_cons_record (path : List String) {node : Node} (kind : node.kind = .record)
    (rest : List Node) :
    declarations path (node :: rest) =
      ⟨path, node⟩ :: (declarations (node.localName :: path) node.members ++
        declarations path rest) := by
  simp [declarations, inside_cons, kind, Node.declares]

/-- An enumeration declares itself only. -/
theorem declarations_cons_enumeration (path : List String) {node : Node}
    (kind : node.kind = .enumeration) (rest : List Node) :
    declarations path (node :: rest) = ⟨path, node⟩ :: declarations path rest := by
  simp [declarations, inside_cons, kind, Node.declares]

/-- A node that is no record and no enumeration declares nothing. -/
theorem declarations_cons_other (path : List String) {node : Node} (silent : node.declares = false)
    (rest : List Node) : declarations path (node :: rest) = declarations path rest := by
  simp [declarations, inside_cons, ne_record_of_silent silent, silent]

/-- The sites of nodes side by side are put together. -/
theorem inside_append (path : List String) (front back : List Node) :
    inside path (front ++ back) = inside path front ++ inside path back := by
  simp only [inside_eq_flatMap, List.flatMap_append]

/-- The declarations of trees side by side are put together. -/
theorem declarations_append (path : List String) (front back : List Node) :
    declarations path (front ++ back) = declarations path front ++ declarations path back := by
  rw [declarations, inside_append, List.filter_append, declarations, declarations]

/-- Where the sites are split at a declaration, the declarations are split as well. -/
theorem declarations_of_split {path : List String} {nodes : List Node} {front behind : List Site}
    {site : Site} (split : inside path nodes = front ++ site :: behind)
    (declares : site.node.declares = true) :
    declarations path nodes = (front.filter fun site => site.node.declares) ++
      site :: behind.filter fun site => site.node.declares := by
  rw [declarations, split, List.filter_append, List.filter_cons, if_pos declares]

/-- A declaration stays one when a node is put in front. -/
theorem mem_declarations_cons {path : List String} {node : Node} {rest : List Node} {site : Site}
    (declared : site ∈ declarations path rest) : site ∈ declarations path (node :: rest) := by
  rw [declarations, List.mem_filter] at declared ⊢
  rw [inside_cons]
  exact ⟨List.mem_cons_of_mem _ (List.mem_append_right _ declared.1), declared.2⟩

/-- Every site stands side by side with the first ones or is a member of the record that its path
leads to. -/
theorem exists_enclosing {path : List String} {nodes : List Node} {site : Site}
    (listed : site ∈ inside path nodes) :
    (site.path = path ∧ site.node ∈ nodes) ∨
      ∃ outer ∈ declarations path nodes, outer.node.kind = .record ∧
        site.node ∈ outer.node.members ∧ site.path = outer.innerPath := by
  induction nodes using forest_induction generalizing path with
  | nil => simp [inside] at listed
  | cons node rest _ members ih =>
    rw [inside_cons, List.mem_cons, List.mem_append] at listed
    rcases listed with rfl | inner | later
    · exact .inl ⟨rfl, List.mem_cons_self⟩
    · by_cases kind : node.kind = .record
      · rw [if_pos kind] at inner
        rw [declarations_cons_record path kind]
        rcases members inner with ⟨within, member⟩ | ⟨outer, declared, isRecord, member, around⟩
        · exact .inr ⟨⟨path, node⟩, List.mem_cons_self, kind, member, within⟩
        · exact .inr ⟨outer, List.mem_cons_of_mem _ (List.mem_append_left _ declared), isRecord,
            member, around⟩
      · simp [kind] at inner
    · rcases ih later with ⟨top, member⟩ | ⟨outer, declared, isRecord, member, around⟩
      · exact .inl ⟨top, List.mem_cons_of_mem _ member⟩
      · exact .inr ⟨outer, mem_declarations_cons declared, isRecord, member, around⟩

/-- The element behind a front stands in the first part, or the front reaches beyond this part. -/
theorem split_append {α : Type} {first second front behind : List α} {element : α}
    (split : first ++ second = front ++ element :: behind) :
    (∃ more, first = front ++ element :: more) ∨
      ∃ more, front = first ++ more ∧ second = more ++ element :: behind := by
  cases List.append_eq_append_iff.mp split with
  | inl beyond => exact .inr beyond
  | inr within =>
    obtain ⟨more, reaches, rest⟩ := within
    cases more with
    | nil =>
      rw [List.append_nil] at reaches
      exact .inr ⟨[], by rw [reaches, List.append_nil], rest.symm⟩
    | cons last more =>
      obtain ⟨rfl, _⟩ := List.cons.inj rest
      exact .inl ⟨more, reaches⟩

/-- The record that a site stands in is itself a site in front of it. -/
theorem exists_enclosing_before {path : List String} {nodes : List Node} {front behind : List Site}
    {site : Site} (split : inside path nodes = front ++ site :: behind) :
    site.path = path ∨
      ∃ outer ∈ front, outer.node.kind = .record ∧ site.path = outer.innerPath := by
  induction nodes using forest_induction generalizing path front behind with
  | nil => simp [inside] at split
  | cons node rest _ members ih =>
    rw [inside_cons] at split
    cases front with
    | nil =>
      obtain ⟨rfl, _⟩ := List.cons.inj split
      exact .inl rfl
    | cons first front =>
      obtain ⟨rfl, tail⟩ := List.cons.inj split
      have wider {found : List Site} (grows : ∀ outer ∈ found, outer ∈ front)
          (enclosed : site.path = path ∨
            ∃ outer ∈ found, outer.node.kind = .record ∧ site.path = outer.innerPath) :
          site.path = path ∨ ∃ outer ∈ ⟨path, node⟩ :: front,
            outer.node.kind = .record ∧ site.path = outer.innerPath :=
        enclosed.imp_right fun ⟨outer, listed, around⟩ =>
          ⟨outer, List.mem_cons_of_mem _ (grows outer listed), around⟩
      cases split_append tail with
      | inl within =>
        obtain ⟨more, inner⟩ := within
        by_cases kind : node.kind = .record
        · rw [if_pos kind] at inner
          cases members inner with
          | inl top => exact .inr ⟨_, List.mem_cons_self, kind, top⟩
          | inr deeper => exact wider (fun _ listed => listed) (.inr deeper)
        · simp [kind] at inner
      | inr beyond =>
        obtain ⟨more, rfl, later⟩ := beyond
        exact wider (fun _ listed => List.mem_append_right _ listed) (ih later)

/-- Every part of the path of a site is that of what stands inside some declaration. -/
theorem exists_innerPath_eq {nodes : List Node} {site : Site} (listed : site ∈ inside [] nodes)
    {record : String} {outer : List String} (part : record :: outer <:+ site.path) :
    ∃ around ∈ declarations [] nodes, around.innerPath = record :: outer := by
  induction path : site.path generalizing site with
  | nil => simp [path] at part
  | cons inner rest ih =>
    rw [path] at part
    rcases exists_enclosing listed with ⟨top, _⟩ | ⟨enclosing, declared, _, _, same⟩
    · simp [top] at path
    · rw [path] at same
      rcases List.suffix_cons_iff.mp part with here | further
      · exact ⟨enclosing, declared, same.symm.trans here.symm⟩
      · obtain ⟨_, beyond⟩ := List.cons.inj same
        exact ih (List.mem_filter.mp declared).1 (beyond ▸ further) beyond.symm

/-- Every node is a site in its place. -/
theorem mem_inside (path : List String) {node : Node} {nodes : List Node} (listed : node ∈ nodes) :
    ⟨path, node⟩ ∈ inside path nodes := by
  induction nodes with
  | nil => simp at listed
  | cons first rest ih =>
    rw [inside_cons, List.mem_cons, List.mem_append]
    cases List.mem_cons.mp listed with
    | inl here => exact .inl (here ▸ rfl)
    | inr later => exact .inr (.inr (ih later))

/-- The members of a record at a site are at sites inside it. -/
theorem mem_inside_of_member {path : List String} {nodes : List Node} {outer : Site}
    (listed : outer ∈ inside path nodes) (kind : outer.node.kind = .record) {member : Node}
    (isMember : member ∈ outer.node.members) : ⟨outer.innerPath, member⟩ ∈ inside path nodes := by
  induction nodes using forest_induction generalizing path with
  | nil => simp [inside] at listed
  | cons node rest _ members ih =>
    rw [inside_cons, List.mem_cons, List.mem_append] at listed ⊢
    obtain rfl | inner | later := listed
    · rw [if_pos kind]
      exact .inr (.inl (mem_inside _ isMember))
    · by_cases isRecord : node.kind = .record
      · rw [if_pos isRecord] at inner ⊢
        exact .inr (.inl (members inner))
      · simp [isRecord] at inner
    · exact .inr (.inr (ih later))

/-- The order of the sites is that of the document. -/
theorem map_node_sublist (path : List String) (nodes : List Node) :
    ((inside path nodes).map node).Sublist (subnodesIn nodes) := by
  induction nodes using forest_induction generalizing path with
  | nil => exact List.Sublist.refl _
  | cons node rest _ members ih =>
    rw [inside_cons, subnodesIn_cons, List.map_cons, List.map_append]
    refine .cons_cons _ (.append ?_ (ih path))
    by_cases kind : node.kind = .record
    · rw [if_pos kind]
      refine (members _).trans ?_
      rw [Node.members]
      cases node.children with
      | nil => exact List.Sublist.refl _
      | cons name behind =>
        rw [subnodesIn]
        exact List.sublist_append_right _ _
    · rw [if_neg kind]
      exact List.nil_sublist _

/-- What stands inside a path is declared inside it or inside a record of it. -/
theorem path_suffix {path : List String} {nodes : List Node} {site : Site}
    (found : site ∈ inside path nodes) : path <:+ site.path := by
  induction nodes using forest_induction generalizing path with
  | nil => simp [inside] at found
  | cons node rest _ members ih =>
    rw [inside_cons] at found
    rcases List.mem_cons.mp found with rfl | below
    · exact List.suffix_refl _
    · rcases List.mem_append.mp below with inner | behind
      · split at inner
        · exact (List.suffix_cons _ _).trans (members inner)
        · simp at inner
      · exact ih behind

end Site

/-- No node of barren trees declares anything. -/
private theorem Barren.filter {nodes : List Node} (barren : Barren nodes) :
    (subnodesIn nodes).filter Node.declares = [] :=
  List.filter_eq_nil_iff.mpr fun node hnode => by simp [barren node hnode]

/-- In a well-placed schema no declaration is missed by the sites, and their order is that of
the document. -/
theorem map_node_declarations {nodes : List Node} (placed : WellPlaced nodes)
    (path : List String) :
    (Site.declarations path nodes).map Site.node = (subnodesIn nodes).filter Node.declares := by
  induction nodes using declaration_induction generalizing path with
  | nil => rfl
  | record node rest kind members ih =>
    rw [subnodesIn_cons, List.filter_cons_of_pos (declares_of_record kind), List.filter_append,
      ← ih placed.rest path, Site.declarations_cons_record path kind, List.map_cons,
      List.map_append, members placed.members]
    cases children : node.children with
    | nil => simp [Node.members, children]
    | cons name inner =>
      have nameBarren := (barren_cons name []).mp (placed.of_children children).1
      have belowName : (subnodesIn name.children).filter Node.declares = [] :=
        Barren.filter nameBarren.2.1
      simp [Node.members, children, subnodesIn_cons, nameBarren.1, belowName]
  | enumeration node rest kind ih =>
    have below := Barren.filter (placed.barren_children (by simp [kind]))
    rw [subnodesIn_cons, List.filter_cons_of_pos (declares_of_enumeration kind),
      List.filter_append, ← ih placed.rest path,
      Site.declarations_cons_enumeration path kind, below]
    rfl
  | other node rest silent ih =>
    have below := Barren.filter (placed.barren_children (ne_record_of_silent silent))
    rw [subnodesIn_cons, List.filter_cons_of_neg (by simp [silent]), List.filter_append,
      ← ih placed.rest path, Site.declarations_cons_other path silent, below]
    rfl

end SchemaGraph
