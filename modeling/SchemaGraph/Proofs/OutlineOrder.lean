import SchemaGraph.Proofs.Nesting

/-!
# The order of the outline

The outline is made by a recursion that goes from every declaration to what is listed as nested in
it. In a coherent registry the recursion ends without a bound, since ids go up on the way. What it
meets are the declarations of the schema, each of them once: what is nested in one stands behind it
and in one piece, one level deeper for each record around it, and the declarations of one scope keep
the order of their registration.
-/

namespace SchemaGraph

open Registry

/-- What the lines of a declaration begin with behind the indentation. -/
def Declaration.heading : Declaration → String
  | record type => "data " ++ type.name
  | enumeration type => "enum " ++ type.name
  | _ => ""

namespace Registry

/-- What stands behind the heading of a declaration: the comment and the properties of a record, or
the values of an enumeration. -/
def details (registry : Registry) (indent : String) : Declaration → String
  | .record type =>
    OutlineEntry.commentText type.comment ++ "\n" ++
      String.join ((registry.shownProperties type).map (ShownProperty.text indent))
  | .enumeration type => " \x7b " ++ ", ".intercalate type.values ++ " \x7d\n"
  | _ => ""

/-- The rows of declarations that stand side by side at a depth and of all that is nested in them.
Nothing bounds the levels. -/
inductive Walked (registry : Registry) : Nat → List TypeId → List (Nat × TypeId) → Prop
  | nil {depth : Nat} : Walked registry depth [] []
  | cons {depth : Nat} {id : TypeId} {rest : List TypeId} {below behind : List (Nat × TypeId)}
      (inner : Walked registry (depth + 1) (registry.nestedIds id) below)
      (outer : Walked registry depth rest behind) :
      Walked registry depth (id :: rest) ((depth, id) :: (below ++ behind))

/-- Declarations directly inside one scope, in the order of their registration. -/
structure Siblings (registry : Registry) (scope : Option TypeId) (ids : List TypeId) : Prop where
  declared : ∀ id ∈ ids, registry.DeclaredIn scope id
  increasing : ids.Pairwise (· < ·)

section Rows

variable {registry : Registry} {depth : Nat} {scope : Option TypeId} {ids : List TypeId}
  {rows : List (Nat × TypeId)}

/-- The roots are siblings at the top level. -/
theorem siblings_roots (registry : Registry) : registry.Siblings none registry.roots :=
  ⟨fun _ listed => mem_roots.mp listed, registry.roots_increasing⟩

/-- The declarations in a record are siblings. -/
theorem Coherent.siblings_nestedIds (coherent : registry.Coherent) (outer : TypeId) :
    registry.Siblings (some outer) (registry.nestedIds outer) :=
  ⟨fun _ listed => coherent.mem_nestedIds.mp listed, coherent.nestedIds_increasing outer⟩

/-- Siblings without the first of them are siblings. -/
theorem Siblings.tail {id : TypeId} (siblings : registry.Siblings scope (id :: ids)) :
    registry.Siblings scope ids :=
  ⟨fun other listed => siblings.declared other (List.mem_cons_of_mem id listed),
    siblings.increasing.of_cons⟩

/-- A branch is a row and, one level deeper, the branches of what is nested in it. -/
theorem branch_succ (registry : Registry) (bound depth : Nat) (id : TypeId) :
    registry.branch (bound + 1) depth id =
      (depth, id) :: (registry.nestedIds id).flatMap (registry.branch bound (depth + 1)) := by
  rw [branch, nestedIds]
  cases registry.record? id <;> rfl

/-- A recursion that ends has one result. -/
theorem Walked.unique {other : List (Nat × TypeId)} (walked : registry.Walked depth ids rows)
    (again : registry.Walked depth ids other) : rows = other := by
  induction walked generalizing other with
  | nil =>
    cases again
    rfl
  | cons _ _ belowIh behindIh =>
    cases again with
    | cons inner outer => rw [belowIh inner, behindIh outer]

/-- The bound on the levels is never met if it covers the ids that are left. -/
theorem Coherent.walked_flatMap_branch (coherent : registry.Coherent) {bound : Nat}
    (covered : ∀ id ∈ ids, id < registry.size ∧ registry.size ≤ id + bound) :
    registry.Walked depth ids (ids.flatMap (registry.branch bound depth)) := by
  induction bound generalizing depth ids with
  | zero =>
    cases ids with
    | nil => exact .nil
    | cons id rest =>
      obtain ⟨inRange, beyond⟩ := covered id List.mem_cons_self
      exact absurd inRange (Nat.not_lt.mpr beyond)
  | succ bound ih =>
    induction ids with
    | nil => exact .nil
    | cons id rest restIh =>
      rw [List.forall_mem_cons] at covered
      obtain ⟨⟨_, reached⟩, others⟩ := covered
      rw [List.flatMap_cons, branch_succ, List.cons_append]
      refine .cons (ih fun child listed => ?_) (restIh others)
      have declared := coherent.mem_nestedIds.mp listed
      have further : id + 1 ≤ child := (coherent.declaredIn_outer declared).1
      refine ⟨declared.lt_size, ?_⟩
      calc registry.size ≤ id + (bound + 1) := reached
        _ = id + 1 + bound := Nat.add_right_comm id bound 1
        _ ≤ child + bound := Nat.add_le_add_right further bound

/-- The rows of the outline are those of the unbounded recursion. -/
theorem Coherent.walked_tree (coherent : registry.Coherent) :
    registry.Walked 0 registry.roots registry.tree := by
  refine coherent.walked_flatMap_branch fun id listed => ?_
  exact ⟨(mem_roots.mp listed).lt_size, Nat.le_add_left _ _⟩

/-- The recursion meets what is within the declarations that it begins with. -/
theorem Walked.mem_iff (walked : registry.Walked depth ids rows) (coherent : registry.Coherent)
    {id : TypeId} : id ∈ rows.map Prod.snd ↔ ∃ root ∈ ids, registry.Within root id := by
  induction walked with
  | nil => simp
  | @cons _ first rest below behind _ _ belowIh behindIh =>
    have nested : (∃ child ∈ registry.nestedIds first, registry.Within child id) ↔
        registry.Inside first id := by
      simp only [inside_iff_below, coherent.mem_nestedIds]
    rw [List.map_cons, List.map_append, List.mem_cons, List.mem_append, belowIh, behindIh, nested,
      ← or_assoc, ← within_iff, List.exists_mem_cons_iff]

/-- No declaration is met twice. -/
theorem Walked.nodup (walked : registry.Walked depth ids rows) (coherent : registry.Coherent)
    (siblings : registry.Siblings scope ids) : (rows.map Prod.snd).Nodup := by
  induction walked generalizing scope with
  | nil => exact .nil
  | @cons _ first rest below behind inner outer belowIh behindIh =>
    have inside {id : TypeId} (listed : id ∈ below.map Prod.snd) : registry.Inside first id := by
      obtain ⟨child, isChild, within⟩ := (inner.mem_iff coherent).mp listed
      exact inside_iff_below.mpr ⟨child, coherent.mem_nestedIds.mp isChild, within⟩
    -- What is within a later sibling is not within the first one.
    have apart {id : TypeId} (listed : id ∈ behind.map Prod.snd) :
        ¬ registry.Within first id := by
      intro withinFirst
      obtain ⟨other, isOther, withinOther⟩ := (outer.mem_iff coherent).mp listed
      have same := coherent.eq_of_within (siblings.declared first List.mem_cons_self)
        (siblings.tail.declared other isOther) withinFirst withinOther
      exact Nat.ne_of_lt ((List.pairwise_cons.mp siblings.increasing).1 other isOther) same
    rw [List.map_cons, List.map_append, List.nodup_cons, List.mem_append, List.nodup_append]
    refine ⟨?_, belowIh (coherent.siblings_nestedIds first), behindIh siblings.tail, ?_⟩
    · rintro (listed | listed)
      · exact Nat.lt_irrefl _ (coherent.lt_of_inside (inside listed))
      · exact apart listed .refl
    · rintro id inBelow _ inBehind rfl
      exact apart inBehind (inside inBelow).to_reflTransGen

/-- The depth counts the records around. -/
theorem Walked.exists_around (walked : registry.Walked depth ids rows)
    (coherent : registry.Coherent)
    (above : ∀ id ∈ ids, ∃ around, registry.Around id around ∧ around.length = depth)
    {row : Nat × TypeId} (listed : row ∈ rows) :
    ∃ around, registry.Around row.2 around ∧ around.length = row.1 := by
  induction walked with
  | nil => simp at listed
  | @cons depth first rest below behind _ _ belowIh behindIh =>
    rw [List.forall_mem_cons] at above
    obtain ⟨further, around, length⟩ := above.1
    rcases List.mem_cons.mp listed with rfl | deeper
    · exact above.1
    · rcases List.mem_append.mp deeper with inBelow | inBehind
      · refine belowIh (fun child isChild => ⟨first :: further, ?_, ?_⟩) inBelow
        · exact .nested (coherent.mem_nestedIds.mp isChild) around
        · rw [List.length_cons, length]
      · exact behindIh above.2 inBehind

/-- What is nested in a declaration follows it in one piece. -/
theorem Walked.exists_split (walked : registry.Walked depth ids rows) (coherent : registry.Coherent)
    {id : TypeId} (listed : id ∈ rows.map Prod.snd) :
    ∃ front inner behind, rows.map Prod.snd = front ++ id :: (inner ++ behind) ∧
      ∀ other, other ∈ inner ↔ registry.Inside id other := by
  induction walked with
  | nil => simp at listed
  | @cons _ first rest below behind inner _ belowIh behindIh =>
    rw [List.map_cons, List.map_append] at listed ⊢
    rcases List.mem_cons.mp listed with rfl | deeper
    · refine ⟨[], below.map Prod.snd, behind.map Prod.snd, rfl, fun other => ?_⟩
      simp only [inner.mem_iff coherent, inside_iff_below, coherent.mem_nestedIds]
    · rcases List.mem_append.mp deeper with inBelow | inBehind
      · obtain ⟨front, within, after, split, isInside⟩ := belowIh inBelow
        exact ⟨first :: front, within, after ++ behind.map Prod.snd, by simp [split], isInside⟩
      · obtain ⟨front, within, after, split, isInside⟩ := behindIh inBehind
        exact ⟨first :: (below.map Prod.snd ++ front), within, after, by simp [split], isInside⟩

/-- A walk meets its siblings in their order. -/
theorem Walked.sublist (walked : registry.Walked depth ids rows) :
    ids.Sublist (rows.map Prod.snd) := by
  induction walked with
  | nil => exact .slnil
  | cons _ _ _ behindIh =>
    rw [List.map_cons, List.map_append]
    exact (behindIh.trans (List.sublist_append_right _ _)).cons_cons _

/-- What is listed as nested in a declaration keeps its order. -/
theorem Walked.sublist_nestedIds (walked : registry.Walked depth ids rows) {id : TypeId}
    (listed : id ∈ rows.map Prod.snd) : (registry.nestedIds id).Sublist (rows.map Prod.snd) := by
  induction walked with
  | nil => simp at listed
  | cons inner _ belowIh behindIh =>
    rw [List.map_cons, List.map_append] at listed ⊢
    refine .cons _ ?_
    rcases List.mem_cons.mp listed with rfl | deeper
    · exact inner.sublist.trans (List.sublist_append_left _ _)
    · rcases List.mem_append.mp deeper with inBelow | inBehind
      · exact (belowIh inBelow).trans (List.sublist_append_left _ _)
      · exact (behindIh inBehind).trans (List.sublist_append_right _ _)

/-- Of two siblings the one that was registered first comes first. -/
theorem Siblings.sublist (siblings : registry.Siblings scope ids) {first second : TypeId}
    (isFirst : first ∈ ids) (isSecond : second ∈ ids) (inOrder : first < second) :
    [first, second].Sublist ids := by
  obtain ⟨front, behind, rfl⟩ := List.append_of_mem isFirst
  have increasing := List.pairwise_append.mp siblings.increasing
  have isBehind : second ∈ behind := by
    rcases List.mem_append.mp isSecond with inFront | notInFront
    · have before := increasing.2.2 second inFront first List.mem_cons_self
      exact absurd inOrder (Nat.lt_asymm before)
    · exact (List.mem_cons.mp notInFront).resolve_left (Nat.ne_of_gt inOrder)
  have behindFirst : [first, second].Sublist (first :: behind) :=
    (List.singleton_sublist.mpr isBehind).cons_cons first
  exact behindFirst.trans (List.sublist_append_right _ _)

end Rows

section Outline

variable {registry : Registry}

/-- The tree has a row for every declaration of a user, and for nothing else. -/
theorem Coherent.mem_tree (coherent : registry.Coherent) {id : TypeId} :
    id ∈ registry.tree.map Prod.snd ↔ ∃ scope, registry.DeclaredIn scope id := by
  rw [coherent.walked_tree.mem_iff coherent]
  constructor
  · rintro ⟨root, isRoot, within⟩
    exact within.exists_scope ⟨none, mem_roots.mp isRoot⟩
  · rintro ⟨_, declared⟩
    obtain ⟨_, around⟩ := coherent.exists_around declared
    obtain ⟨root, top, within⟩ := around.exists_root
    exact ⟨root, mem_roots.mpr top, within⟩

/-- An entry of the outline stands for a row of the tree. -/
theorem mem_outline {entry : OutlineEntry} :
    entry ∈ registry.outline ↔ ∃ depth id declaration, (depth, id) ∈ registry.tree ∧
      registry.declarations[id]? = some declaration ∧
      entry = ⟨depth, id, declaration.name, registry.shown declaration⟩ := by
  rw [outline, List.mem_filterMap]
  constructor
  · rintro ⟨⟨depth, id⟩, listed, isEntry⟩
    obtain ⟨declaration, found, rfl⟩ := Option.map_eq_some_iff.mp isEntry
    exact ⟨depth, id, declaration, listed, found, rfl⟩
  · rintro ⟨depth, id, declaration, listed, found, rfl⟩
    exact ⟨(depth, id), listed, Option.map_eq_some_iff.mpr ⟨declaration, found, rfl⟩⟩

/-- Every row that the recursion meets becomes an entry. -/
theorem Coherent.map_outline (coherent : registry.Coherent) :
    registry.outline.map (fun entry => (entry.depth, entry.id)) = registry.tree := by
  rw [outline, List.map_filterMap]
  refine (List.filterMap_congr fun row listed => ?_).trans List.filterMap_some
  obtain ⟨_, declaration, found, _⟩ := coherent.mem_tree.mp (List.mem_map_of_mem listed)
  dsimp only
  rw [found]
  rfl

/-- Every row of the tree has its entry. -/
theorem Coherent.map_id_outline (coherent : registry.Coherent) :
    registry.outline.map OutlineEntry.id = registry.tree.map Prod.snd := by
  rw [← coherent.map_outline, List.map_map]
  rfl

/-- The lines of an entry are the indentation, the heading of the declaration and its own details:
nothing of another declaration. -/
theorem text_of_isUser {declaration : Declaration} (user : declaration.isUser = true) (depth : Nat)
    (id : TypeId) :
    OutlineEntry.text ⟨depth, id, declaration.name, registry.shown declaration⟩ =
      "\n" ++ indentation depth ++ declaration.heading ++
        registry.details (indentation depth) declaration := by
  cases declaration with
  | record type =>
    simp [OutlineEntry.text, shown, Declaration.name, Declaration.heading, details,
      String.append_assoc]
  | enumeration type =>
    simp [OutlineEntry.text, shown, Declaration.name, Declaration.heading, details,
      String.append_assoc]
  | _ => simp [Declaration.isUser] at user

/-- An entry is indented by two spaces for each of the records around its declaration. -/
theorem Coherent.exists_text_of_mem (coherent : registry.Coherent) {entry : OutlineEntry}
    (listed : entry ∈ registry.outline) :
    ∃ (declaration : Declaration) (around : List TypeId) (indent : String),
      registry.declarations[entry.id]? = some declaration ∧
      around.Nodup ∧ (∀ outer, outer ∈ around ↔ registry.Inside outer entry.id) ∧
      indent = String.ofList (List.replicate (2 * around.length) ' ') ∧
      entry.text =
        "\n" ++ indent ++ declaration.heading ++ registry.details indent declaration := by
  obtain ⟨depth, id, declaration, isRow, found, rfl⟩ := mem_outline.mp listed
  have top (root : TypeId) (isRoot : root ∈ registry.roots) :
      ∃ around, registry.Around root around ∧ around.length = 0 :=
    ⟨[], .top (mem_roots.mp isRoot), rfl⟩
  obtain ⟨around, isAround, rfl⟩ := coherent.walked_tree.exists_around coherent top isRow
  obtain ⟨_, other, atId, user, _⟩ := coherent.mem_tree.mp (List.mem_map_of_mem isRow)
  obtain rfl := Option.some.inj (found.symm.trans atId)
  exact ⟨declaration, around, _, found, coherent.nodup_around isAround,
    fun outer => isAround.mem_iff, rfl, text_of_isUser user around.length id⟩

/-- Declarations of one scope stand in the order of their registration. -/
theorem Coherent.sublist_tree (coherent : registry.Coherent) {scope : Option TypeId}
    {first second : TypeId} (inFirst : registry.DeclaredIn scope first)
    (inSecond : registry.DeclaredIn scope second) (inOrder : first < second) :
    [first, second].Sublist (registry.tree.map Prod.snd) := by
  have walked := coherent.walked_tree
  cases scope with
  | none =>
    have ordered := registry.siblings_roots.sublist (mem_roots.mpr inFirst)
      (mem_roots.mpr inSecond) inOrder
    exact ordered.trans walked.sublist
  | some outer =>
    have ordered := (coherent.siblings_nestedIds outer).sublist
      (coherent.mem_nestedIds.mpr inFirst) (coherent.mem_nestedIds.mpr inSecond) inOrder
    have isRow := coherent.mem_tree.mpr (coherent.declaredIn_outer inFirst).2
    exact ordered.trans (walked.sublist_nestedIds isRow)

/-- The outline shows the whole schema in order, for every registry that operations lead to or that
a compile returns. The recursion over what is listed as nested ends without a bound and gives the
entries. There is one for each record and each enumeration and none for a builtin type. What is
printed is the title and the lines of the entries one after the other. Those of an entry are the
heading and the details of its declaration, indented by two spaces for each of the records around
it, and nothing else. Declarations of one scope, and so those of the top level, keep the order of
registration, and what is nested in a declaration follows it at once, in front of everything else.
-/
theorem outline_in_order {registry : Registry}
    (origin : registry.Reachable ∨
      ∃ settings moment schema, (compile settings moment schema).result = .ok registry) :
    (∀ rows, registry.Walked 0 registry.roots rows ↔
      rows = registry.outline.map fun entry => (entry.depth, entry.id)) ∧
    (registry.outline.map OutlineEntry.id).Nodup ∧
    (∀ id : TypeId, id ∈ registry.outline.map OutlineEntry.id ↔
      ∃ declaration, registry.declarations[id]? = some declaration ∧ declaration.isUser = true) ∧
    registry.outlineText = "\n" ++ rule ++ "Type Graph\n" ++ rule ++
      String.join (registry.outline.map OutlineEntry.text) ++ "\n" ∧
    (∀ entry ∈ registry.outline,
      ∃ (declaration : Declaration) (around : List TypeId) (indent : String),
      registry.declarations[entry.id]? = some declaration ∧
      around.Nodup ∧ (∀ outer, outer ∈ around ↔ registry.Inside outer entry.id) ∧
      indent = String.ofList (List.replicate (2 * around.length) ' ') ∧
      entry.text =
        "\n" ++ indent ++ declaration.heading ++ registry.details indent declaration) ∧
    (∀ (scope : Option TypeId) (first second : TypeId), registry.DeclaredIn scope first →
      registry.DeclaredIn scope second → first < second →
      [first, second].Sublist (registry.outline.map OutlineEntry.id)) ∧
    ∀ id ∈ registry.outline.map OutlineEntry.id, ∃ front inner behind,
      registry.outline.map OutlineEntry.id = front ++ id :: (inner ++ behind) ∧
      ∀ other, other ∈ inner ↔ registry.Inside id other := by
  have coherent : registry.Coherent := by
    rcases origin with reachable | ⟨_, _, _, success⟩
    · exact reachable.coherent
    · exact coherent_of_result success
  have walked := coherent.walked_tree
  rw [coherent.map_outline, coherent.map_id_outline]
  refine ⟨fun rows => ⟨fun again => again.unique walked, ?_⟩,
    walked.nodup coherent registry.siblings_roots,
    fun id => coherent.mem_tree.trans exists_declaredIn_iff, rfl,
    fun entry listed => coherent.exists_text_of_mem listed,
    fun scope first second inFirst inSecond => coherent.sublist_tree inFirst inSecond,
    fun id listed => walked.exists_split coherent listed⟩
  rintro rfl
  exact walked

/-- A record in which a record and an enumeration were nested after another enumeration had been
registered beside it. -/
def shelves : Registry :=
  performAll ⟨[.primitive "int", .blob "blob"]⟩
    [.registerRecord none "Shelf", .registerEnumeration none "Color",
      .registerRecord (some 2) "Box", .registerEnumeration (some 4) "Size"]

/-- The outline of nested shelves, which is printed with two spaces for every level. -/
theorem outline_in_order_shelves :
    shelves.Reachable ∧
      shelves.outline.map (fun entry => (entry.depth, entry.id)) =
        [(0, 2), (1, 4), (2, 5), (0, 3)] ∧
      (∀ rows, shelves.Walked 0 shelves.roots rows ↔ rows = [(0, 2), (1, 4), (2, 5), (0, 3)]) ∧
      shelves.outline.map OutlineEntry.id = [2, 4, 5, 3] ∧
      shelves.outlineText = "\n" ++ rule ++ "Type Graph\n" ++ rule ++
        "\ndata Shelf\n\n  data Shelf.Box\n\n    enum Shelf.Box.Size \x7b  \x7d\n" ++
        "\nenum Color \x7b  \x7d\n" ++ "\n" ∧
      shelves.Inside 2 5 ∧
      [2, 3].Sublist (shelves.outline.map OutlineEntry.id) := by
  have registered : withBuiltins ["int"] "blob" = .ok ⟨[.primitive "int", .blob "blob"]⟩ := by
    decide
  have reachable : shelves.Reachable := (Reachable.builtins registered).performAll _
  have rows : shelves.outline.map (fun entry => (entry.depth, entry.id)) =
      [(0, 2), (1, 4), (2, 5), (0, 3)] := by decide
  obtain ⟨walked, _, _, printed, _, ordered, _⟩ := outline_in_order (.inl reachable)
  have top {id : TypeId} (isRoot : id ∈ shelves.roots) : shelves.DeclaredIn none id :=
    mem_roots.mp isRoot
  have entries : String.join (shelves.outline.map OutlineEntry.text) =
      "\ndata Shelf\n\n  data Shelf.Box\n\n    enum Shelf.Box.Size \x7b  \x7d\n" ++
        "\nenum Color \x7b  \x7d\n" := by
    decide +kernel
  refine ⟨reachable, rows, fun others => rows ▸ walked others, by decide, ?_, ?_,
    ordered none 2 3 (top (by decide)) (top (by decide)) (by decide)⟩
  · rw [printed, entries]
    simp only [String.append_assoc]
  have box : shelves.DeclaredIn (some 2) 4 := ⟨_, rfl, rfl, rfl⟩
  have size : shelves.DeclaredIn (some 4) 5 := ⟨_, rfl, rfl, rfl⟩
  exact .tail (.single box) size

end Outline

end Registry

end SchemaGraph
