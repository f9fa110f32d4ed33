import SchemaGraph.Proofs.ResolvedTypes

/-!
# The fault of a property node

A property node that does not fit in is at fault in one of three ways: it has no name, its type gets
stuck, or its type is read and one of the options behind it is rejected. Which names are registered
is all that counts. A fault behind the name is reported inside the property, in one layer.
-/

namespace SchemaGraph

open Node Registry TypeExpression

/-- From inside the records of a path the reference stands for one of the names. -/
def Name.Refers (names path : List String) (reference : String) : Prop :=
  ∃ candidate ∈ Name.candidates path reference, candidate ∈ names

instance (names path : List String) (reference : String) :
    Decidable (Name.Refers names path reference) :=
  List.decidableBEx _ _

/-- The fault of a property of a record, given the names that are registered and the path of the
record. -/
inductive Node.PropertyFault (names path : List String) (node : Node) : CompileError → Prop
  | unnamed (nameless : node.children = []) :
      PropertyFault names path node (.atNode node .propertyWithoutName)
  /-- The type gets stuck. -/
  | type {owner : String} {name : Node} {nodes : List Node} {error : CompileError}
      (around : Name.ofPath? path = some owner) (children : node.children = name :: nodes)
      (stuck : StuckWith (Name.Refers names path) (some owner) nodes error) :
      PropertyFault names path node (.inProperty owner name.text error)
  /-- An option is rejected, and those between the type and it are accepted. -/
  | option {owner : String} {name : Node} {expression : TypeExpression}
      {front accepted behind : List Node} {option : Node} {error : CompileError}
      (around : Name.ofPath? path = some owner)
      (children : node.children = name :: (front ++ (accepted ++ option :: behind)))
      (spelled : Spells expression front)
      (known : ∀ reference ∈ expression.references, Name.Refers names path reference)
      (before : OptionsAccepted accepted) (isOption : option.kind = .option)
      (rejected : PropertyOption.ofNode option = .error error) :
      PropertyFault names path node (.inProperty owner name.text error)

/-- What stands behind a type can be read in two goes. -/
theorem read_append (first second : List Node) (start : Extras) :
    Extras.read (first ++ second) start =
      match Extras.read first start with
      | .ok extras => Extras.read second extras
      | .error error => .error error := by
  induction first generalizing start with
  | nil => rfl
  | cons node rest ih =>
    rw [List.cons_append, Extras.read, Extras.read]
    split
    · cases PropertyOption.ofNode node with
      | ok option => exact ih _
      | error error => rfl
    · exact ih _
    · exact ih _

/-- The nodes behind a type are refused for the first option that is rejected. -/
theorem read_eq_error_iff {nodes : List Node} {start : Extras} {error : CompileError} :
    Extras.read nodes start = .error error ↔
      ∃ accepted option behind, nodes = accepted ++ option :: behind ∧ OptionsAccepted accepted ∧
        option.kind = .option ∧ PropertyOption.ofNode option = .error error := by
  constructor
  · intro failure
    induction nodes generalizing start with
    | nil => simp [Extras.read] at failure
    | cons node rest ih =>
      have further {next : Extras} (failure : Extras.read rest next = .error error)
          (here : OptionsAccepted [node]) :
          ∃ accepted option behind, node :: rest = accepted ++ option :: behind ∧
            OptionsAccepted accepted ∧ option.kind = .option ∧
            PropertyOption.ofNode option = .error error := by
        obtain ⟨accepted, option, behind, rfl, before, isOption, rejected⟩ := ih failure
        refine ⟨node :: accepted, option, behind, rfl, ?_, isOption, rejected⟩
        exact List.forall_mem_cons.mpr ⟨List.forall_mem_singleton.mp here, before⟩
      rw [Extras.read] at failure
      by_cases kind : node.kind = .option
      · simp only [kind] at failure
        cases result : PropertyOption.ofNode node with
        | ok option =>
          rw [result] at failure
          exact further failure (List.forall_mem_singleton.mpr fun _ => ⟨option, result⟩)
        | error other =>
          rw [result] at failure
          obtain rfl := Except.error.inj failure
          exact ⟨[], node, rest, rfl, by simp [OptionsAccepted], kind, result⟩
      · have here : OptionsAccepted [node] :=
          List.forall_mem_singleton.mpr fun isOption => absurd isOption kind
        split at failure
        · rename_i isOption
          exact absurd isOption kind
        · exact further failure here
        · exact further failure here
  · intro split
    obtain ⟨accepted, option, behind, rfl, before, isOption, rejected⟩ := split
    rw [read_append, read_eq_ok_iff.mpr ⟨before, rfl⟩]
    simp only [Extras.read, isOption, rejected]

section Errors

/-- A text that cannot be decoded is the only fault of decoding. -/
private theorem exists_literalParse_of_decode {text : String} {error : CompileError}
    (rejected : PropertyOption.decode text = .error error) :
    ∃ text, error = .literalParse text := by
  rw [PropertyOption.decode] at rejected
  split at rejected
  · simp at rejected
  · exact ⟨text, (Except.error.inj rejected).symm⟩

/-- A rejected literal is the only fault of setting pairs. -/
private theorem exists_literalParse_of_setPairs {arguments : List Node}
    {parameters : List (String × Literal)} {error : CompileError}
    (rejected : PropertyOption.setPairs arguments parameters = .error error) :
    ∃ text, error = .literalParse text := by
  induction arguments generalizing parameters with
  | nil => simp [PropertyOption.setPairs] at rejected
  | cons argument rest ih =>
    rw [PropertyOption.setPairs] at rejected
    split at rejected
    · split at rejected
      · exact ih rejected
      · rename_i unread
        exact exists_literalParse_of_decode (Except.error.inj rejected ▸ unread)
    · exact ih rejected

/-- A rejected literal is the only fault of reading parameters. -/
private theorem exists_literalParse_of_parametersOf {arguments : List Node} {error : CompileError}
    (rejected : PropertyOption.parametersOf arguments = .error error) :
    ∃ text, error = .literalParse text := by
  unfold PropertyOption.parametersOf at rejected
  split at rejected
  · split at rejected
    · exact exists_literalParse_of_setPairs rejected
    · split at rejected
      · simp at rejected
      · rename_i unread
        exact exists_literalParse_of_decode (Except.error.inj rejected ▸ unread)
  · exact exists_literalParse_of_setPairs rejected

/-- An option is rejected since it is none or has no name, or for a literal. -/
theorem error_of_ofNode {node : Node} {error : CompileError}
    (rejected : PropertyOption.ofNode node = .error error) :
    error = .atNode node (.optionExpected node.kind) ∨ error = .atNode node .optionWithoutName ∨
      ∃ text, error = .literalParse text := by
  rw [PropertyOption.ofNode] at rejected
  split at rejected
  · exact .inl (Except.error.inj rejected).symm
  · split at rejected
    · exact .inr (.inl (Except.error.inj rejected).symm)
    · split at rejected
      · simp at rejected
      · rename_i unread
        exact .inr (.inr (exists_literalParse_of_parametersOf (Except.error.inj rejected ▸ unread)))

/-- What a reading gets stuck with is a malformed type or a name that denotes nothing. -/
theorem TypeExpression.StuckWith.error_eq {known : String → Prop} {scope : Option String}
    {tokens : List Node} {error : CompileError} (stuck : StuckWith known scope tokens error) :
    (∃ fault, error = .malformedType fault) ∨ ∃ name, error = .typeNotFound name scope := by
  obtain ⟨front, behind, _, _, refused⟩ := stuck
  cases refused with
  | ended | misplaced => exact .inl ⟨_, rfl⟩
  | unknown => exact .inr ⟨_, rfl⟩

/-- A fault behind the name is reported inside the property of the record, in one layer. -/
theorem Node.PropertyFault.error_eq {names path : List String} {node : Node} {error : CompileError}
    (fault : node.PropertyFault names path error) :
    node.children = [] ∧ error = .atNode node .propertyWithoutName ∨
      ∃ owner name source, Name.ofPath? path = some owner ∧ node.firstChildText? = some name ∧
        error = .inProperty owner name source ∧ source.root = source := by
  cases fault with
  | unnamed nameless => exact .inl ⟨nameless, rfl⟩
  | @type owner name nodes source around children stuck =>
    refine .inr ⟨owner, name.text, source, around, by simp [firstChildText?, children], rfl, ?_⟩
    obtain ⟨_, rfl⟩ | ⟨_, rfl⟩ := stuck.error_eq <;> rfl
  | @option owner name _ _ _ _ _ source around children _ _ _ _ rejected =>
    refine .inr ⟨owner, name.text, source, around, by simp [firstChildText?, children], rfl, ?_⟩
    obtain rfl | rfl | ⟨_, rfl⟩ := error_of_ofNode rejected <;> rfl

end Errors

namespace Registry

variable {registry : Registry} {camelCaseKeys : Bool} {owner : TypeId} {error : CompileError}

/-- A property is not read if its type is not resolved, or if the nodes behind the type are refused.
-/
theorem readProperty_eq_error_iff {name : String} {nodes : List Node} :
    registry.readProperty camelCaseKeys owner name nodes = .error error ↔
      registry.resolveType (some owner) nodes = .error error ∨
        ∃ type rest, registry.resolveType (some owner) nodes = .ok (type, rest) ∧
          Extras.read rest Extras.none = .error error := by
  rw [readProperty]
  cases resolved : registry.resolveType (some owner) nodes with
  | error other => simp
  | ok result =>
    obtain ⟨type, rest⟩ := result
    simp only [reduceCtorEq, false_or, Except.ok.injEq, Prod.mk.injEq, ↓existsAndEq, true_and]
    cases Extras.read rest Extras.none with
    | error other => simp
    | ok extras =>
      -- What is resolved has a representation.
      obtain ⟨_, _, _, _, denotes⟩ := resolveType_eq_ok_iff_spells.mp resolved
      obtain ⟨kind, represents⟩ := exists_represents_of_denotes denotes
      simp [makeProperty, kindFor_eq_ok_iff.mpr represents, Except.map]

/-- A property is not added if it has no name or is not read. -/
theorem fillProperty_eq_error_iff {around : String} (named : registry.nameOf owner = .ok around)
    (record : registry.HasRecord owner) {node : Node} :
    (Change.fillProperty camelCaseKeys owner node).run registry = .error error registry ↔
      node.children = [] ∧ error = .atNode node .propertyWithoutName ∨
        ∃ name nodes source, node.children = name :: nodes ∧
          registry.readProperty camelCaseKeys owner name.text nodes = .error source ∧
          error = .inProperty around name.text source := by
  cases children : node.children with
  | nil => simp [Change.run_fillProperty_of_unnamed children, eq_comm]
  | cons name nodes =>
    simp only [reduceCtorEq, false_and, false_or, List.cons.injEq, ↓existsAndEq, true_and]
    cases read : registry.readProperty camelCaseKeys owner name.text nodes with
    | error source =>
      simp [Change.run_fillProperty_of_unread children read, inProperty, named, eq_comm]
    | ok result => simp [Change.run_fillProperty_of_record children read record]

/-- From inside the records of a path something is found under the names that the reference stands
for. -/
theorem finds_eq_refers (precede : registry.ParentsPrecede) {path : List String}
    {scope : Option TypeId} (stands : registry.Stands path scope) :
    registry.Finds scope = Name.Refers registry.names path := by
  funext reference
  rw [Finds, Name.Refers, resolve_of_stands precede stands]
  cases found : (Name.candidates path reference).find? (· ∈ registry.names) with
  | none => simpa using found
  | some name =>
    have listed : name ∈ registry.names := by simpa using List.find?_some found
    simpa using ⟨name, List.mem_of_find?_eq_some found, listed⟩

/-- The property of a node is not added to the record of a path exactly if the node is at fault, and
for this fault. -/
theorem fillProperty_eq_error_iff_fault (precede : registry.ParentsPrecede) {path : List String}
    (stands : registry.Stands path (some owner)) (record : registry.HasRecord owner) {node : Node} :
    (Change.fillProperty camelCaseKeys owner node).run registry = .error error registry ↔
      node.PropertyFault registry.names path error := by
  have scope := scopeName_of_stands stands
  obtain ⟨around, named, isAround⟩ := map_eq_ok_iff.mp scope
  have finds := finds_eq_refers precede stands
  have stuck {nodes : List Node} {source : CompileError} :
      registry.resolveType (some owner) nodes = .error source ↔
        StuckWith (Name.Refers registry.names path) (some around) nodes source := by
    rw [resolveType_eq_error_iff scope, finds, isAround]
  have known (expression : TypeExpression) : (∃ type, Denotes (fun reference type =>
      registry.typeNamed (some owner) reference = .ok type) expression type) ↔
        ∀ reference ∈ expression.references, Name.Refers registry.names path reference := by
    simp only [exists_denotes_iff, exists_typeNamed_iff, finds]
  rw [fillProperty_eq_error_iff named record]
  constructor
  · intro failure
    obtain ⟨nameless, rfl⟩ | ⟨name, nodes, source, children, unread, rfl⟩ := failure
    · exact .unnamed nameless
    · obtain unresolved | ⟨type, rest, resolved, refused⟩ := readProperty_eq_error_iff.mp unread
      · exact .type isAround.symm children (stuck.mp unresolved)
      · obtain ⟨expression, front, rfl, spelled, denotes⟩ :=
          resolveType_eq_ok_iff_spells.mp resolved
        obtain ⟨accepted, option, behind, rfl, before, isOption, rejected⟩ :=
          read_eq_error_iff.mp refused
        exact .option isAround.symm children spelled ((known expression).mp ⟨type, denotes⟩) before
          isOption rejected
  · intro fault
    cases fault with
    | unnamed nameless => exact .inl ⟨nameless, rfl⟩
    | type isOwner children unresolved =>
      obtain rfl := Option.some.inj (isAround.trans isOwner)
      refine .inr ⟨_, _, _, children, readProperty_eq_error_iff.mpr (.inl ?_), rfl⟩
      exact stuck.mpr unresolved
    | option isOwner children spelled known' before isOption rejected =>
      obtain rfl := Option.some.inj (isAround.trans isOwner)
      obtain ⟨type, denotes⟩ := (known _).mpr known'
      refine .inr ⟨_, _, _, children, readProperty_eq_error_iff.mpr (.inr ?_), rfl⟩
      refine ⟨type, _, resolveType_eq_ok_iff_spells.mpr ⟨_, _, rfl, spelled, denotes⟩, ?_⟩
      exact read_eq_error_iff.mpr ⟨_, _, _, rfl, before, isOption, rejected⟩

end Registry

end SchemaGraph
