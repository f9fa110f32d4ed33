import SchemaGraph.Proofs.Attempts
import SchemaGraph.Proofs.ShellGraph

/-!
# Trees that have lost some members

A thinned tree is a tree from which some children of declarations have been dropped, but never the
first child, which is the name. What stands below a node that declares nothing is untouched in its
shape, so names, comments and options are read as before. If nothing is declared in what is dropped,
the first pass does not notice.
-/

namespace SchemaGraph

open Node Registry

/-- The second list of trees is the first one with some trees dropped from the children of
declarations. The flags say whether the trees are such children, and whether the first of them may
be dropped: it may not if it is a name. -/
inductive Thinned (droppable : Node → Prop) : Bool → Bool → List Node → List Node → Prop
  | nil {inside free : Bool} : Thinned droppable inside free [] []
  | kept {inside free : Bool} {node node' : Node} {rest rest' : List Node}
      (kind : node'.kind = node.kind) (text : node'.text = node.text)
      (position : node'.position = node.position)
      (below : Thinned droppable node.declares false node.children node'.children)
      (behind : Thinned droppable inside inside rest rest') :
      Thinned droppable inside free (node :: rest) (node' :: rest')
  | dropped {node : Node} {rest rest' : List Node} (fit : droppable node)
      (behind : Thinned droppable true true rest rest') :
      Thinned droppable true true (node :: rest) rest'

/-- The second node is the first one thinned. -/
structure Node.ThinsTo (droppable : Node → Prop) (node node' : Node) : Prop where
  kind : node'.kind = node.kind
  text : node'.text = node.text
  position : node'.position = node.position
  below : Thinned droppable node.declares false node.children node'.children

variable {droppable : Node → Prop}

/-- Nothing need be dropped. -/
theorem Thinned.refl (inside free : Bool) (nodes : List Node) :
    Thinned droppable inside free nodes nodes := by
  induction nodes using forest_induction generalizing inside free with
  | nil => exact .nil
  | cons node rest children _ ih => exact .kept rfl rfl rfl (children _ _) (ih _ _)

/-- From no nodes none can be left. -/
theorem Thinned.eq_nil {inside free : Bool} {nodes' : List Node}
    (thinned : Thinned droppable inside free [] nodes') : nodes' = [] := by
  cases thinned
  rfl

/-- A first tree that may not be dropped is kept. -/
theorem Thinned.exists_head {inside : Bool} {node : Node} {rest nodes' : List Node}
    (thinned : Thinned droppable inside false (node :: rest) nodes') :
    ∃ node' rest', nodes' = node' :: rest' ∧ node.ThinsTo droppable node' ∧
      Thinned droppable inside inside rest rest' := by
  cases thinned with
  | kept kind text position below behind =>
    exact ⟨_, _, rfl, ⟨kind, text, position, below⟩, behind⟩

/-- Outside of declarations every tree is kept. -/
theorem Thinned.forall₂ {nodes nodes' : List Node}
    (thinned : Thinned droppable false false nodes nodes') :
    List.Forall₂ (ThinsTo droppable) nodes nodes' := by
  induction nodes generalizing nodes' with
  | nil =>
    rw [thinned.eq_nil]
    exact .nil
  | cons node rest ih =>
    obtain ⟨_, _, rfl, here, behind⟩ := thinned.exists_head
    exact .cons here (ih behind)

namespace Node.ThinsTo

variable {node node' : Node}

/-- A fault at the node is worded alike. -/
theorem atNode (thins : node.ThinsTo droppable node') (fault : StructuralFault) :
    CompileError.atNode node' fault = CompileError.atNode node fault := by
  rw [CompileError.atNode, CompileError.atNode, thins.position]

/-- A node keeps its first child, which may be thinned itself. -/
theorem children (thins : node.ThinsTo droppable node') :
    (node.children = [] ∧ node'.children = []) ∨
      ∃ name members name' members', node.children = name :: members ∧
        node'.children = name' :: members' ∧ name.ThinsTo droppable name' ∧
        Thinned droppable node.declares node.declares members members' := by
  have below := thins.below
  cases children : node.children with
  | nil =>
    rw [children] at below
    exact .inl ⟨rfl, below.eq_nil⟩
  | cons name members =>
    rw [children] at below
    obtain ⟨name', members', children', first, behind⟩ := below.exists_head
    exact .inr ⟨name, members, name', members', rfl, children', first, behind⟩

/-- The members of a declaration are thinned, the name is not one of them. -/
theorem members (thins : node.ThinsTo droppable node') :
    Thinned droppable node.declares node.declares node.members node'.members := by
  rw [Node.members, Node.members]
  obtain ⟨empty, empty'⟩ | ⟨_, _, _, _, children, children', _, behind⟩ := thins.children
  · rw [empty, empty']
    exact .nil
  · rw [children, children']
    exact behind

/-- A node does not lose all its children. -/
theorem children_eq_nil_iff (thins : node.ThinsTo droppable node') :
    node'.children = [] ↔ node.children = [] := by
  obtain ⟨empty, empty'⟩ | ⟨_, _, _, _, children, children', _⟩ := thins.children
  · simp [empty, empty']
  · simp [children, children']

/-- A thinned tree keeps the first text among its children, which names it. -/
theorem firstChildText? (thins : node.ThinsTo droppable node') :
    node'.firstChildText? = node.firstChildText? := by
  obtain ⟨empty, empty'⟩ | ⟨_, _, _, _, children, children', first, _⟩ := thins.children
  · simp [Node.firstChildText?, empty, empty']
  · simp [Node.firstChildText?, children, children', first.text]

/-- A thinned tree keeps its local name. -/
theorem localName (thins : node.ThinsTo droppable node') : node'.localName = node.localName := by
  rw [Node.localName, Node.localName, thins.firstChildText?]

/-- The name of a thinned declaration is read alike, or refused alike. -/
theorem declarationName (thins : node.ThinsTo droppable node') :
    declarationName node' = declarationName node := by
  simp only [SchemaGraph.declarationName, thins.kind, thins.text, thins.atNode]

/-- Below a node that declares nothing no tree is dropped. -/
theorem forall₂_children (thins : node.ThinsTo droppable node')
    (silent : node.declares = false) :
    List.Forall₂ (ThinsTo droppable) node.children node'.children :=
  Thinned.forall₂ (silent ▸ thins.below)

end Node.ThinsTo

section Reading

variable {nodes nodes' : List Node}

/-- Thinned nodes side by side have their texts. -/
theorem map_text_of_forall₂ (alike : List.Forall₂ (ThinsTo droppable) nodes nodes') :
    nodes'.map Node.text = nodes.map Node.text := by
  induction alike with
  | nil => rfl
  | cons thins _ ih => rw [List.map_cons, List.map_cons, thins.text, ih]

/-- A node that declares nothing carries the same text. -/
theorem Node.ThinsTo.commentText {node node' : Node} (thins : node.ThinsTo droppable node')
    (silent : node.declares = false) : node'.commentText = node.commentText := by
  have empty : node'.children.isEmpty = node.children.isEmpty := by
    rw [Bool.eq_iff_iff, List.isEmpty_iff, List.isEmpty_iff, thins.children_eq_nil_iff]
  rw [Node.commentText, Node.commentText, empty, thins.text,
    map_text_of_forall₂ (thins.forall₂_children silent)]

/-- A named argument keeps its name and the text of its value. -/
theorem Node.ThinsTo.namedArgument? {node node' : Node} (thins : node.ThinsTo droppable node') :
    (PropertyOption.namedArgument? node').map (fun (key, value) => (key, value.text)) =
      (PropertyOption.namedArgument? node).map fun (key, value) => (key, value.text) := by
  by_cases pair : node.kind = .pair
  · have alike := thins.forall₂_children (by simp [Node.declares, pair])
    rw [PropertyOption.namedArgument?, PropertyOption.namedArgument?, thins.kind, pair]
    generalize node.children = arguments, node'.children = arguments' at alike
    cases alike with
    | nil => rfl
    | cons key others =>
      cases others with
      | nil => rfl
      | cons value more =>
        cases more with
        | nil => simp [key.text, value.text]
        | cons => rfl
  · have none (other : Node) (kind : other.kind ≠ .pair) :
        PropertyOption.namedArgument? other = Option.none := by
      rw [PropertyOption.namedArgument?]
      split
      · rename_i isPair _
        exact absurd isPair kind
      · rfl
    rw [none node pair, none node' (thins.kind ▸ pair)]

/-- Pairs among thinned arguments are set alike. -/
theorem setPairs_of_forall₂ (alike : List.Forall₂ (ThinsTo droppable) nodes nodes')
    (parameters : List (String × Literal)) :
    PropertyOption.setPairs nodes' parameters = PropertyOption.setPairs nodes parameters := by
  induction alike generalizing parameters with
  | nil => rfl
  | @cons node node' _ _ thins _ ih =>
    have named := thins.namedArgument?
    rw [PropertyOption.setPairs, PropertyOption.setPairs]
    cases here : PropertyOption.namedArgument? node with
    | none =>
      rw [here, Option.map_none, Option.map_eq_none_iff] at named
      rw [named]
      exact ih parameters
    | some argument =>
      obtain ⟨key, value⟩ := argument
      rw [here, Option.map_some, Option.map_eq_some_iff] at named
      obtain ⟨⟨key', value'⟩, here', same⟩ := named
      obtain ⟨rfl, text⟩ := Prod.mk.inj same
      rw [here']
      simp only [text, ih]

/-- Thinned arguments give the same parameters. -/
theorem parametersOf_of_forall₂ (alike : List.Forall₂ (ThinsTo droppable) nodes nodes') :
    PropertyOption.parametersOf nodes' = PropertyOption.parametersOf nodes := by
  have pairs := setPairs_of_forall₂ alike []
  cases alike with
  | nil => rfl
  | cons thins others =>
    cases others with
    | nil => simp only [PropertyOption.parametersOf, thins.kind, thins.text, pairs]
    | cons => exact pairs

/-- An option is read as before. -/
theorem Node.ThinsTo.ofNode {node node' : Node} (thins : node.ThinsTo droppable node') :
    PropertyOption.ofNode node' = PropertyOption.ofNode node := by
  rw [PropertyOption.ofNode, PropertyOption.ofNode, thins.kind, thins.atNode, thins.atNode]
  by_cases kind : node.kind = .option
  · rw [if_neg (not_not.mpr kind), if_neg (not_not.mpr kind)]
    have alike := thins.forall₂_children (by simp [Node.declares, kind])
    generalize node.children = children, node'.children = children' at alike
    cases alike with
    | nil => rfl
    | cons name arguments =>
      simp only [name.text, parametersOf_of_forall₂ arguments]
  · rw [if_pos kind, if_pos kind]

/-- What stands behind the type of a property is read as before. -/
theorem read_of_forall₂ (alike : List.Forall₂ (ThinsTo droppable) nodes nodes') (start : Extras) :
    Extras.read nodes' start = Extras.read nodes start := by
  induction alike generalizing start with
  | nil => rfl
  | @cons node node' _ _ thins _ ih =>
    rw [Extras.read, Extras.read, thins.kind, thins.ofNode]
    cases kind : node.kind with
    | option =>
      dsimp only
      cases PropertyOption.ofNode node with
      | error error => rfl
      | ok option => exact ih _
    | comment =>
      dsimp only
      rw [thins.commentText (by simp [Node.declares, kind])]
      exact ih _
    | _ => exact ih _

end Reading

/-- The second list of sites is the first one without some droppable nodes, and the others are
thinned. -/
inductive Site.Thinned (droppable : Node → Prop) : List Site → List Site → Prop
  | nil : Site.Thinned droppable [] []
  | kept {path : List String} {node node' : Node} {rest rest' : List Site}
      (thins : node.ThinsTo droppable node') (behind : Site.Thinned droppable rest rest') :
      Site.Thinned droppable (⟨path, node⟩ :: rest) (⟨path, node'⟩ :: rest')
  | dropped {site : Site} {rest rest' : List Site} (fit : droppable site.node)
      (behind : Site.Thinned droppable rest rest') : Site.Thinned droppable (site :: rest) rest'

/-- Sites may be thinned in two goes. -/
theorem Site.Thinned.append {front front' back back' : List Site}
    (first : Site.Thinned droppable front front') (second : Site.Thinned droppable back back') :
    Site.Thinned droppable (front ++ back) (front' ++ back') := by
  induction first with
  | nil => exact second
  | kept thins _ ih => exact .kept thins ih
  | dropped fit _ ih => exact .dropped fit ih

/-- If only comments may be dropped, the sites of thinned trees lack nothing but comments. -/
theorem Thinned.sites (comments : ∀ node, droppable node → node.kind = .comment)
    {inside free : Bool} {nodes nodes' : List Node}
    (thinned : Thinned droppable inside free nodes nodes') (path : List String) :
    Site.Thinned droppable (Site.inside path nodes) (Site.inside path nodes') := by
  induction nodes using forest_induction generalizing inside free nodes' path with
  | nil =>
    rw [thinned.eq_nil]
    exact .nil
  | cons node rest _ members ih =>
    rw [Site.inside_cons]
    cases thinned with
    | @kept _ _ _ node' _ rest' kind text position below behind =>
      have thins : node.ThinsTo droppable node' := ⟨kind, text, position, below⟩
      rw [Site.inside_cons, kind, thins.localName]
      refine .kept thins (Site.Thinned.append ?_ (ih behind path))
      split
      · exact members thins.members _
      · exact .nil
    | dropped fit behind =>
      -- A comment is not entered, so no site is lost but its own.
      have silent : node.kind ≠ .record := by simp [comments node fit]
      rw [if_neg silent, List.nil_append]
      exact .dropped fit (ih behind path)

namespace Shells

/-- A thinned node is registered alike. -/
theorem registerNode_of_thinsTo {node node' : Node} (thins : node.ThinsTo droppable node')
    (registry : Registry) (parent : Option TypeId) :
    registerNode registry parent node' = registerNode registry parent node := by
  obtain ⟨empty, empty'⟩ | ⟨_, _, _, _, children, children', first, _⟩ := thins.children
  · rw [registerNode, registerNode, empty, empty']
  · rw [registerNode, registerNode, children, children']
    simp only [registerNamed, thins.kind, first.declarationName]

/-- If nothing is declared in what may be dropped, the first pass does the same on thinned trees. -/
theorem declareAll_of_thinned (barren : ∀ node, droppable node → Barren [node])
    {inside free : Bool} {nodes nodes' : List Node}
    (thinned : Thinned droppable inside free nodes nodes') (parent : Option TypeId)
    (shells : Shells) : declareAll parent nodes' shells = declareAll parent nodes shells := by
  induction thinned generalizing parent shells with
  | nil => rfl
  | @kept _ _ node node' _ _ kind text position below _ children behind =>
    have thins : node.ThinsTo droppable node' := ⟨kind, text, position, below⟩
    have scope (id : TypeId) : node'.scopeFor id = node.scopeFor id := by
      rw [scopeFor, scopeFor, kind]
    have here : declare parent node' shells = declare parent node shells := by
      rw [declare_eq, declare_eq, registerNode_of_thinsTo thins]
      simp only [scope, children]
    rw [declareAll, declareAll, here, behind]
  | @dropped node _ _ fit _ behind =>
    have silent : declare parent node shells = shells := declareAll_barren (barren node fit) _ _
    rw [declareAll, silent, behind]

end Shells

end SchemaGraph
