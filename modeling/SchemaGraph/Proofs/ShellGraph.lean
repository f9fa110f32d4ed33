import Mathlib.Data.List.Nodup
import SchemaGraph.Proofs.DistinctNames
import SchemaGraph.Proofs.FirstPass

/-!
# The shells of a schema

If every declaration of a well-placed schema has a fit name and no two qualified names clash,
the first pass skips nothing and registers exactly the shells that the schema describes: one for
each declaration in document order, with the id of its parent and the ids of its children. An id
is the position of a name among the names of the builtin types and of all declarations.
-/

namespace SchemaGraph

open Node Registry

/-- The names of the builtin types and of the declarations of a schema, in order of
registration. -/
def allNames (settings : Settings) (schema : Schema) : List String :=
  settings.builtinNames ++ (Site.declarations [] schema).map Site.name

namespace Site

/-- The id of the innermost record of a path. -/
def scopeId (names : List String) (path : List String) : Option TypeId :=
  (Name.ofPath? path).map names.idxOf

/-- The ids of what is declared by nodes that stand side by side. -/
def childIds (names : List String) (path : List String) (nodes : List Node) : List TypeId :=
  (declaredNames nodes).map fun localName => names.idxOf (Name.inside path localName)

/-- The shell of what the site declares. -/
def shell (names : List String) (site : Site) : Declaration :=
  match site.node.kind with
  | .record =>
    .record
      { RecordType.shell site.name (scopeId names site.path) with
        children := childIds names site.innerPath site.node.members }
  | _ => .enumeration (EnumType.shell site.name (scopeId names site.path))

/-- A shell has the name of its site. -/
@[simp] theorem name_shell (names : List String) (site : Site) :
    (site.shell names).name = site.name := by
  unfold shell
  split <;> rfl

/-- The names of shells are those of their sites. -/
@[simp] theorem name_comp_shell (names : List String) :
    Declaration.name ∘ shell names = Site.name :=
  funext (name_shell names)

/-- A shell is of the kind that its node declares. -/
theorem kind_shell (names : List String) (site : Site) :
    (site.shell names).kind = site.node.declaredKind := by
  unfold shell declaredKind
  split <;> simp_all [Declaration.kind]

/-- The shell of a site belongs to the user. -/
theorem isUser_shell (names : List String) (site : Site) : (site.shell names).isUser = true := by
  unfold shell
  split <;> rfl

/-- The shell of a site stands in the record that the path of the site leads to. -/
@[simp] theorem parent_shell (names : List String) (site : Site) :
    (site.shell names).parent = scopeId names site.path := by
  unfold shell
  split <;> rfl

/-- A declaring node is a child of the record around it. -/
theorem childIds_cons {names path : List String} {node : Node} (declares : node.declares = true)
    (rest : List Node) :
    childIds names path (node :: rest) =
      names.idxOf (Name.inside path node.localName) :: childIds names path rest := by
  rw [childIds, declaredNames_cons declares, List.map_cons, childIds]

/-- A node that declares nothing is no child. -/
theorem childIds_cons_other {names path : List String} {node : Node}
    (silent : node.declares = false) (rest : List Node) :
    childIds names path (node :: rest) = childIds names path rest := by
  rw [childIds, declaredNames_cons_other silent, childIds]

end Site

section Lists

variable {α : Type}

/-- A change in front of what is appended leaves it alone. -/
private theorem modify_append {f : α → α} {index : Nat} {front : List α}
    (inFront : index < front.length) (back : List α) :
    (front ++ back).modify index f = front.modify index f ++ back := by
  apply List.ext_getElem?
  intro other
  by_cases earlier : other < front.length
  · rw [List.getElem?_modify, List.getElem?_append_left earlier,
      List.getElem?_append_left (by simpa using earlier), List.getElem?_modify]
  · have behind := Nat.le_of_not_lt earlier
    have apart : index ≠ other := by omega
    rw [List.getElem?_modify_ne _ _ apart, List.getElem?_append_right behind,
      List.getElem?_append_right (by simpa using behind), List.length_modify]

/-- The last element can be changed by itself. -/
private theorem modify_concat (f : α → α) (front : List α) (last : α) :
    (front ++ [last]).modify front.length f = front ++ [f last] := by
  apply List.ext_getElem?
  intro other
  rw [List.getElem?_modify]
  rcases Nat.lt_trichotomy other front.length with earlier | rfl | behind
  · have apart : front.length ≠ other := by omega
    simp [List.getElem?_append_left earlier, apart]
  · simp
  · have outside (end' : α) : (front ++ [end']).length ≤ other := by
      simpa using Nat.succ_le_of_lt behind
    rw [List.getElem?_eq_none (outside last), List.getElem?_eq_none (outside (f last))]
    rfl

/-- In a list without repetitions an element stands nowhere but where it is split off. -/
private theorem idxOf_eq_of_nodup {name : String} {names front back : List String}
    (distinct : names.Nodup) (split : names = front ++ name :: back) :
    name ∉ front ∧ names.idxOf name = front.length := by
  subst names
  have fresh : name ∉ front := fun listed =>
    (List.nodup_append.mp distinct).2.2 name listed name List.mem_cons_self rfl
  exact ⟨fresh, by simp [List.idxOf_append, fresh]⟩

end Lists

namespace Registry

/-- To adopt no children changes nothing. -/
@[simp] theorem adopt_nil (registry : Registry) (parent : Option TypeId) :
    registry.adopt parent [] = registry := by
  cases parent with
  | none => rfl
  | some parentId =>
    have same : Declaration.onRecord
        (fun record => { record with children := record.children ++ [] }) = id := by
      funext declaration
      cases declaration <;> simp [Declaration.onRecord]
    rw [adopt, onRecord, same, List.modify_id]

/-- Children may be adopted in two goes. -/
theorem adopt_adopt (registry : Registry) (parent : Option TypeId) (first second : List TypeId) :
    (registry.adopt parent first).adopt parent second =
      registry.adopt parent (first ++ second) := by
  cases parent with
  | none => rfl
  | some id =>
    simp only [adopt, onRecord, List.modify_modify_eq]
    congr 2
    funext declaration
    cases declaration <;> simp [Declaration.onRecord]

/-- What is appended does not come between a parent and its children. -/
theorem adopt_append {registry : Registry} {parent : Option TypeId}
    (inRange : ∀ id, parent = some id → registry.HasRecord id) (declarations : List Declaration)
    (first second : List TypeId) :
    ((registry.adopt parent first).append declarations).adopt parent second =
      (registry.adopt parent (first ++ second)).append declarations := by
  rw [← adopt_adopt]
  cases parent with
  | none => rfl
  | some id =>
    obtain ⟨record, found⟩ := inRange id rfl
    have bound : id < (registry.adopt (some id) first).declarations.length := by
      have same := size_adopt registry (some id) first
      rw [size] at same
      rw [same]
      exact (List.getElem?_eq_some_iff.mp found).1
    generalize registry.adopt (some id) first = adopted at bound ⊢
    simp only [adopt, onRecord, append, modify_append bound]

/-- The declaration that was appended last gets its children where it stands. -/
theorem adopt_last (registry : Registry) (record : RecordType) (children : List TypeId) :
    (registry.append [.record record]).adopt (some registry.size) children =
      registry.append [.record { record with children := record.children ++ children }] := by
  simp only [adopt, onRecord, append, size, modify_concat]
  rfl

/-- Declarations may be appended in two goes. -/
theorem append_append (registry : Registry) (first second : List Declaration) :
    (registry.append first).append second = registry.append (first ++ second) := by
  simp [append]

/-- To append nothing changes nothing. -/
@[simp] theorem append_nil (registry : Registry) : registry.append [] = registry := by
  simp [append]

end Registry

namespace Shells

/-- The registry knows the innermost record of a path under the id that the names give it. -/
private def Encloses (names : List String) (registry : Registry) (path : List String) : Prop :=
  ∀ id, Site.scopeId names path = some id → ∃ record : RecordType,
    registry.declarations[id]? = some (.record record) ∧ some record.name = Name.ofPath? path

/-- What encloses a node is a record. -/
private theorem Encloses.hasRecord {names path : List String} {registry : Registry}
    (encloses : Encloses names registry path) (id : TypeId)
    (scope : Site.scopeId names path = some id) : registry.HasRecord id := by
  obtain ⟨record, found, _⟩ := encloses id scope
  exact ⟨record, found⟩

/-- An enclosing path stays one when more is registered and children are added to its record. -/
private theorem Encloses.adopt_append {names path : List String} {registry : Registry}
    (encloses : Encloses names registry path) (children : List TypeId)
    (declarations : List Declaration) :
    Encloses names
      ((registry.adopt (Site.scopeId names path) children).append declarations) path := by
  intro id scope
  obtain ⟨record, found, named⟩ := encloses id scope
  obtain ⟨kept, keptFound, name, kind, _⟩ :=
    getElem?_adopt found (Site.scopeId names path) children
  have inRange := (List.getElem?_eq_some_iff.mp keptFound).1
  cases kept with
  | record other =>
    refine ⟨other, ?_, ?_⟩
    · rw [append, List.getElem?_append_left inRange, keptFound]
    · rw [← named]
      exact congrArg some name
  | _ => simp [Declaration.kind] at kind

/-- A record that has just been registered encloses its members. -/
private theorem encloses_last {names path : List String} {registry : Registry} {record : RecordType}
    (position : Site.scopeId names path = some registry.size)
    (named : some record.name = Name.ofPath? path) :
    Encloses names (registry.append [.record record]) path := by
  intro id scope
  rw [position, Option.some.injEq] at scope
  subst id
  exact ⟨record, by simp [append, size], named⟩

/-- Inside of it names are qualified by the path. -/
private theorem Encloses.qualify {names path : List String} {registry : Registry}
    (encloses : Encloses names registry path) (localName : String) :
    registry.qualify (Site.scopeId names path) localName = .ok (Name.inside path localName) := by
  cases path with
  | nil => rfl
  | cons record outer =>
    obtain ⟨type, found, named⟩ := encloses _ rfl
    have name : registry.nameOf (names.idxOf (Name.inside outer record)) =
        .ok (Name.inside outer record) :=
      nameOf_eq_ok_iff.mpr ⟨_, found, Option.some.inj named⟩
    simp only [Site.scopeId, Name.ofPath?, Option.map_some, Registry.qualify, scopeName, name]
    rfl

/-- Nothing is registered where nothing is declared. -/
theorem declareAll_barren {nodes : List Node} (barren : Barren nodes)
    (parent : Option TypeId) (shells : Shells) : declareAll parent nodes shells = shells := by
  induction nodes using forest_induction generalizing parent shells with
  | nil => rfl
  | cons node rest children _ ih =>
    obtain ⟨silent, below, behind⟩ := (barren_cons node rest).mp barren
    rw [declareAll, ih behind]
    obtain ⟨kind, text, list, position⟩ := node
    cases list with
    | nil => rfl
    | cons name members =>
      have other : kind ≠ .record ∧ kind ≠ .enumeration := by
        simpa [Node.declares] using silent
      rw [declare, registerNamed_of_silent other]
      exact children below none shells

/-- A declaration of a fit and new name is registered as an empty shell; what stands below it
is registered inside it if it is a record. -/
private theorem declare_registers {names path : List String} {registry : Registry}
    {node name : Node} {members : List Node} (declares : node.declares = true)
    (children : node.children = name :: members) (named : node.HasLocalName)
    (encloses : Encloses names registry path)
    (fresh : Name.inside path node.localName ∉ registry.names) (skips : List Skip) :
    declare (Site.scopeId names path) node ⟨registry, skips⟩ =
      declareAll (if node.kind = .record then some registry.size else none) (name :: members)
        ⟨(registry.adopt (Site.scopeId names path) [registry.size]).append
          [emptyShell node.kind (Name.inside path node.localName) (Site.scopeId names path)],
          skips⟩ := by
  have success : registry.register (emptyShell node.kind (Name.inside path node.localName)
      (Site.scopeId names path)) = .ok (registry.size,
        (registry.adopt (Site.scopeId names path) [registry.size]).append
          [emptyShell node.kind (Name.inside path node.localName) (Site.scopeId names path)]) := by
    rw [register_eq_ok_iff, emptyShell_name, emptyShell_parent]
    exact ⟨fresh, encloses.hasRecord, rfl, rfl⟩
  obtain ⟨first, others, children', fit⟩ := named
  obtain ⟨rfl, rfl⟩ := List.cons.inj (children.symm.trans children')
  have read : declarationName name = .ok node.localName := by
    rw [declarationName_eq_ok_iff]
    exact ⟨fit, by simp [Node.localName, firstChildText?, children]⟩
  have registered : registerNamed registry (Site.scopeId names path) node.kind name =
      .ok (some (registry.size, (registry.adopt (Site.scopeId names path) [registry.size]).append
        [emptyShell node.kind (Name.inside path node.localName) (Site.scopeId names path)])) := by
    rw [registerNamed_of_declares (declares_iff.mp declares), read]
    simp only
    rw [encloses.qualify]
    simp only [success]
  obtain ⟨kind, text, list, position⟩ := node
  cases children
  rw [declare, registered]
  rfl

/-- An enumeration is registered as it will stay until its values are filled in. -/
private theorem declare_enumeration {names path : List String} {registry : Registry} {node : Node}
    {rest : List Node} (placed : WellPlaced (node :: rest)) (kind : node.kind = .enumeration)
    (named : node.HasLocalName) (encloses : Encloses names registry path)
    (fresh : Site.name ⟨path, node⟩ ∉ registry.names) (skips : List Skip) :
    declare (Site.scopeId names path) node ⟨registry, skips⟩ =
      ⟨(registry.adopt (Site.scopeId names path) [registry.size]).append
        [Site.shell names ⟨path, node⟩], skips⟩ := by
  obtain ⟨name, members, children, _⟩ := id named
  have barren : Barren (name :: members) :=
    children ▸ placed.barren_children (by simp [kind])
  have shell : emptyShell node.kind (Name.inside path node.localName) (Site.scopeId names path) =
      Site.shell names ⟨path, node⟩ := by
    simp [emptyShell, Site.shell, kind, Site.name]
  rw [declare_registers (declares_of_enumeration kind) children named encloses fresh,
    declareAll_barren barren, shell]

/-- A record is registered as an empty shell and gets its children while its members are
declared; what the members do is the hypothesis `inner`. -/
private theorem declare_record {names path : List String} {registry : Registry} {node : Node}
    {rest : List Node} (placed : WellPlaced (node :: rest)) (kind : node.kind = .record)
    (named : node.HasLocalName) (encloses : Encloses names registry path)
    (fresh : Site.name ⟨path, node⟩ ∉ registry.names)
    (position : names.idxOf (Site.name ⟨path, node⟩) = registry.size) {below : List Declaration}
    (skips : List Skip)
    (inner : ∀ grown : Registry,
      grown.names = registry.names ++ [Site.name ⟨path, node⟩] →
      Encloses names grown (node.localName :: path) →
      declareAll (some registry.size) node.members ⟨grown, skips⟩ =
        ⟨(grown.adopt (some registry.size)
          (Site.childIds names (node.localName :: path) node.members)).append below, skips⟩) :
    declare (Site.scopeId names path) node ⟨registry, skips⟩ =
      ⟨(registry.adopt (Site.scopeId names path) [registry.size]).append
        (Site.shell names ⟨path, node⟩ :: below), skips⟩ := by
  obtain ⟨name, members, children, _⟩ := id named
  obtain ⟨nameBarren, _⟩ := placed.of_children children
  have skipName (parent : Option TypeId) (shells : Shells) :
      declareAll parent (name :: members) shells = declareAll parent node.members shells := by
    have passed : declare parent name shells = shells := declareAll_barren nameBarren _ _
    rw [declareAll, passed, Node.members, children]
    rfl
  have shell : emptyShell node.kind (Name.inside path node.localName) (Site.scopeId names path) =
      .record (RecordType.shell (Site.name ⟨path, node⟩) (Site.scopeId names path)) := by
    rw [kind]
    rfl
  have within : Encloses names ((registry.adopt (Site.scopeId names path) [registry.size]).append
      [.record (RecordType.shell (Site.name ⟨path, node⟩) (Site.scopeId names path))])
      (node.localName :: path) := by
    refine encloses_last ?_ rfl
    rw [size_adopt]
    exact congrArg some position
  have filled := (registry.adopt (Site.scopeId names path) [registry.size]).adopt_last
    (RecordType.shell (Site.name ⟨path, node⟩) (Site.scopeId names path))
    (Site.childIds names (node.localName :: path) node.members)
  have own : Declaration.record
      { RecordType.shell (Site.name ⟨path, node⟩) (Site.scopeId names path) with
        children :=
          (RecordType.shell (Site.name ⟨path, node⟩) (Site.scopeId names path)).children ++
            Site.childIds names (node.localName :: path) node.members } =
      Site.shell names ⟨path, node⟩ := by
    simp only [Site.shell, kind]
    rfl
  rw [size_adopt, own] at filled
  rw [declare_registers (declares_of_record kind) children named encloses fresh, if_pos kind,
    skipName, shell, inner _ (by simp [Declaration.name, RecordType.shell]) within, filled,
    append_append, List.singleton_append]

/-- What is registered at a node and what is registered behind it add up. -/
private theorem declareAll_behind {names path : List String} {registry : Registry} {node : Node}
    {rest : List Node} (declares : node.declares = true) (encloses : Encloses names registry path)
    (position : names.idxOf (Site.name ⟨path, node⟩) = registry.size)
    {here behind : List Declaration} {skips : List Skip}
    (atNode : declare (Site.scopeId names path) node ⟨registry, skips⟩ =
      ⟨(registry.adopt (Site.scopeId names path) [registry.size]).append here, skips⟩)
    (later : ∀ grown : Registry, grown.names = registry.names ++ here.map Declaration.name →
      Encloses names grown path →
      declareAll (Site.scopeId names path) rest ⟨grown, skips⟩ =
        ⟨(grown.adopt (Site.scopeId names path) (Site.childIds names path rest)).append behind,
          skips⟩) :
    declareAll (Site.scopeId names path) (node :: rest) ⟨registry, skips⟩ =
      ⟨(registry.adopt (Site.scopeId names path) (Site.childIds names path (node :: rest))).append
        (here ++ behind), skips⟩ := by
  rw [declareAll, atNode, later _ (by simp) (encloses.adopt_append [registry.size] here),
    Registry.adopt_append encloses.hasRecord here [registry.size] (Site.childIds names path rest),
    append_append, Site.childIds_cons declares, ← position]
  rfl

/-- Under fit and distinct names nothing is skipped: the shells of all declarations are appended
in document order, and the scope gets those that stand directly in it as children. -/
theorem declareAll_shells {names path : List String} {nodes : List Node} {registry : Registry}
    {behind : List String} (placed : WellPlaced nodes)
    (named : ∀ site ∈ Site.declarations path nodes, site.node.HasLocalName)
    (distinct : names.Nodup)
    (split : names = registry.names ++ ((Site.declarations path nodes).map Site.name ++ behind))
    (encloses : Encloses names registry path) (skips : List Skip) :
    declareAll (Site.scopeId names path) nodes ⟨registry, skips⟩ =
      ⟨(registry.adopt (Site.scopeId names path) (Site.childIds names path nodes)).append
        ((Site.declarations path nodes).map (Site.shell names)), skips⟩ := by
  induction nodes using declaration_induction generalizing path registry behind with
  | nil => simp [declareAll, Site.declarations_nil, Site.childIds, declaredNames]
  | record node rest kind members ih =>
    rw [Site.declarations_cons_record path kind] at named split ⊢
    rw [List.forall_mem_cons, List.forall_mem_append] at named
    obtain ⟨here, inner, later⟩ := named
    rw [List.map_cons, List.map_append, List.cons_append, List.append_assoc] at split
    obtain ⟨fresh, position⟩ := idxOf_eq_of_nodup distinct split
    rw [length_names] at position
    have scope : Site.scopeId names (node.localName :: path) = some registry.size :=
      congrArg some position
    have atNode := declare_record placed kind here encloses fresh position skips
      fun grown grows within => scope ▸ members placed.members inner
        (by rw [grows, split, List.append_assoc, List.singleton_append]) within
    rw [List.map_cons, List.map_append, ← List.cons_append]
    refine declareAll_behind (declares_of_record kind) encloses position atNode
      fun grown grows known =>
        ih placed.rest later (?_ : names = grown.names ++ (_ ++ behind)) known
    rw [grows, split]
    simp
  | enumeration node rest kind ih =>
    rw [Site.declarations_cons_enumeration path kind] at named split ⊢
    rw [List.forall_mem_cons] at named
    obtain ⟨here, later⟩ := named
    rw [List.map_cons, List.cons_append] at split
    obtain ⟨fresh, position⟩ := idxOf_eq_of_nodup distinct split
    rw [length_names] at position
    have atNode := declare_enumeration placed kind here encloses fresh skips
    rw [List.map_cons, ← List.singleton_append]
    refine declareAll_behind (declares_of_enumeration kind) encloses position atNode
      fun grown grows known =>
        ih placed.rest later (?_ : names = grown.names ++ (_ ++ behind)) known
    rw [grows, split]
    simp
  | other node rest silent ih =>
    rw [Site.declarations_cons_other path silent] at named split ⊢
    have barren : Barren [node] :=
      (barren_cons node []).mpr ⟨silent, placed.barren_children (ne_record_of_silent silent),
        barren_nil⟩
    have here : declare (Site.scopeId names path) node ⟨registry, skips⟩ = ⟨registry, skips⟩ :=
      declareAll_barren barren _ _
    rw [declareAll, here, Site.childIds_cons_other silent]
    exact ih placed.rest named split encloses

/-- The first pass over a well-placed schema of fit names that are distinct from one another and
from the names of the builtin types. -/
theorem ofSchema_shells {settings : Settings} {schema : Schema} (placed : WellPlaced schema)
    (named : ∀ site ∈ Site.declarations [] schema, site.node.HasLocalName)
    (distinct : (allNames settings schema).Nodup) :
    ofSchema ⟨settings.builtins⟩ schema =
      ⟨⟨settings.builtins ++
        (Site.declarations [] schema).map (Site.shell (allNames settings schema))⟩, []⟩ := by
  have split : allNames settings schema = Registry.names ⟨settings.builtins⟩ ++
      ((Site.declarations [] schema).map Site.name ++ []) := by
    rw [Registry.names, Settings.map_name_builtins, List.append_nil, allNames]
  exact declareAll_shells placed named distinct split (fun id scope => by simp [Site.scopeId,
    Name.ofPath?] at scope) []

end Shells

end SchemaGraph
