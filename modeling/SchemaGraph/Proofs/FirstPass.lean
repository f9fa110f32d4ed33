import Mathlib.Data.List.Nodup
import SchemaGraph.Compile
import SchemaGraph.Proofs.Registration
import SchemaGraph.Proofs.Sites

/-!
# What the first pass registers

The builtin types are registered exactly if their names are distinct. The first pass then is a
sequence of registrations of empty shells and of skips, so its registry keeps the builtins, has
distinct names and registers every parent before its children.
-/

namespace SchemaGraph

open Node Registry Relation

/-- The names of the builtin types in order of registration. -/
def Settings.builtinNames (settings : Settings) : List String :=
  settings.primitives ++ [settings.blob]

/-- The declarations of the builtin types. -/
def Settings.builtins (settings : Settings) : List Declaration :=
  settings.primitives.map Declaration.primitive ++ [Declaration.blob settings.blob]

/-- The builtin declarations have the builtin names. -/
theorem Settings.map_name_builtins (settings : Settings) :
    settings.builtins.map Declaration.name = settings.builtinNames := by
  simp [Settings.builtins, Settings.builtinNames, Function.comp_def, Declaration.name]

/-- No builtin declaration is one of the user. -/
theorem Settings.isUser_builtins {settings : Settings} {declaration : Declaration}
    (listed : declaration ∈ settings.builtins) : declaration.isUser = false := by
  rcases List.mem_append.mp listed with primitive | blob
  · obtain ⟨name, _, rfl⟩ := List.mem_map.mp primitive
    rfl
  · rw [List.mem_singleton.mp blob]
    rfl

/-- Builtin types are as they are made, and nested in no record. -/
theorem Settings.bare_builtins {settings : Settings} {declaration : Declaration}
    (listed : declaration ∈ settings.builtins) :
    declaration.bare = declaration ∧ declaration.parent = none := by
  rcases List.mem_append.mp listed with primitive | blob
  · obtain ⟨name, _, rfl⟩ := List.mem_map.mp primitive
    exact ⟨rfl, rfl⟩
  · rw [List.mem_singleton.mp blob]
    exact ⟨rfl, rfl⟩

namespace Registry

/-- Declarations outside of records are registered exactly if all names are distinct. -/
theorem registerAll_eq_ok_iff {registry grown : Registry} {declarations : List Declaration}
    (distinct : registry.names.Nodup)
    (outside : ∀ declaration ∈ declarations, declaration.parent = none) :
    registry.registerAll declarations = .ok grown ↔
      (registry.names ++ declarations.map Declaration.name).Nodup ∧
        grown = registry.append declarations := by
  induction declarations generalizing registry with
  | nil => simp [registerAll, append, distinct, eq_comm]
  | cons declaration rest ih =>
    rw [List.forall_mem_cons] at outside
    have split : registry.names ++ (declaration :: rest).map Declaration.name =
        (registry.append [declaration]).names ++ rest.map Declaration.name := by
      simp
    have grows : registry.append (declaration :: rest) =
        (registry.append [declaration]).append rest := by
      simp [append]
    rw [registerAll]
    by_cases fresh : declaration.name ∈ registry.names
    · have refused (id : TypeId) (next : Registry) :
          registry.register declaration ≠ .ok (id, next) :=
        fun success => (register_eq_ok_iff.mp success).1 fresh
      have shared : ¬ (registry.names ++ (declaration :: rest).map Declaration.name).Nodup := by
        intro all
        exact (List.nodup_append.mp all).2.2 _ fresh _ List.mem_cons_self rfl
      cases result : registry.register declaration with
      | ok next => exact absurd result (refused _ _)
      | error error => simp only [reduceCtorEq, shared, false_and]
    · have success : registry.register declaration =
          .ok (registry.size, registry.append [declaration]) := by
        rw [register_eq_ok_iff, outside.1]
        exact ⟨fresh, by simp, rfl, rfl⟩
      have next : (registry.append [declaration]).names.Nodup :=
        nodup_names_of_register distinct success
      rw [success, split, grows]
      exact ih next outside.2

/-- Outside of records only a taken name is refused. -/
theorem registerAll_eq_error {registry : Registry} {declarations : List Declaration}
    {error : RegistryError} (outside : ∀ declaration ∈ declarations, declaration.parent = none)
    (failure : registry.registerAll declarations = .error error) :
    ∃ name, error = .duplicateType name := by
  induction declarations generalizing registry with
  | nil => simp [registerAll] at failure
  | cons declaration rest ih =>
    obtain ⟨here, behind⟩ := List.forall_mem_cons.mp outside
    rw [registerAll, register] at failure
    by_cases taken : (registry.find? declaration.name).isSome
    · rw [if_pos taken] at failure
      exact ⟨_, (Except.error.inj failure).symm⟩
    · rw [if_neg taken, here] at failure
      exact ih behind failure

/-- The builtin types are registered exactly if their names are distinct. -/
theorem withBuiltins_eq_ok_iff {settings : Settings} {registry : Registry} :
    withBuiltins settings.primitives settings.blob = .ok registry ↔
      settings.builtinNames.Nodup ∧ registry = ⟨settings.builtins⟩ := by
  have outside : ∀ declaration ∈ settings.builtins, declaration.parent = none :=
    fun _ listed => (Settings.bare_builtins listed).2
  have all : empty.registerAll settings.builtins = .ok registry ↔
      (empty.names ++ settings.builtins.map Declaration.name).Nodup ∧
        registry = empty.append settings.builtins :=
    registerAll_eq_ok_iff (by simp [empty, names]) outside
  rw [Settings.map_name_builtins] at all
  exact all

end Registry

/-- If the builtin types collide, a compile comes to nothing but the first name that is taken. -/
theorem compile_of_collide {settings : Settings} (collide : ¬ settings.builtinNames.Nodup)
    (moment : Instant) (schema : Schema) :
    ∃ name, compile settings moment schema =
      .failed (.duplicateType name) none (Report.start moment) [] := by
  rw [compile]
  cases result : withBuiltins settings.primitives settings.blob with
  | ok registry => exact absurd (withBuiltins_eq_ok_iff.mp result).1 collide
  | error error =>
    obtain ⟨name, rfl⟩ :=
      registerAll_eq_error (fun _ listed => (Settings.bare_builtins listed).2) result
    exact ⟨name, rfl⟩

/-- The node can name a declaration: it is a token whose text is not empty and has neither dots
nor blanks. -/
def Node.IsLocalName (name : Node) : Prop :=
  name.kind = .token ∧ name.text ≠ "" ∧
    ∀ c ∈ name.text.toList, c ≠ '.' ∧ Text.isBlank c = false

/-- The first child of the node can name a declaration. -/
def Node.HasLocalName (node : Node) : Prop :=
  ∃ name members, node.children = name :: members ∧ name.IsLocalName

/-- The test for local names accepts what counts as one. -/
theorem Node.isLocalName_iff {name : Node} :
    (name.kind = .token ∧ isLocalName name.text = true) ↔ name.IsLocalName := by
  simp [IsLocalName, isLocalName]

instance (name : Node) : Decidable name.IsLocalName :=
  decidable_of_iff _ Node.isLocalName_iff

instance (node : Node) : Decidable node.HasLocalName :=
  decidable_of_iff (∃ name ∈ node.children.head?, name.IsLocalName) <| by
    unfold HasLocalName
    cases node.children <;> simp

/-- A node that has a local name has a child with this name. -/
theorem Node.HasLocalName.children_ne_nil {node : Node} (named : node.HasLocalName) :
    node.children ≠ [] := by
  obtain ⟨name, members, children, _⟩ := named
  simp [children]

/-- Local names have no dots, so that qualified names can be taken apart again. -/
theorem Node.HasLocalName.dotFree {node : Node} (named : node.HasLocalName) :
    Name.DotFree node.localName := by
  obtain ⟨name, members, children, _, _, fit⟩ := named
  intro dot
  simp only [localName, firstChildText?, children, List.head?_cons, Option.map_some,
    Option.getD_some] at dot
  exact (fit _ dot).1 rfl

/-- A name is read exactly if it is fit, and then as it is written. -/
theorem declarationName_eq_ok_iff {name : Node} {text : String} :
    declarationName name = .ok text ↔ name.IsLocalName ∧ text = name.text := by
  rw [declarationName, ← isLocalName_iff]
  by_cases token : name.kind = .token
  · by_cases isFit : isLocalName name.text = true
    · rw [if_neg (by simp [token]), if_pos isFit, Except.ok.injEq]
      constructor
      · rintro rfl
        exact ⟨⟨token, isFit⟩, rfl⟩
      · rintro ⟨_, rfl⟩
        rfl
    · simp [token, isFit]
  · simp [token]

/-- What cannot name a declaration does not have the shape of a name. -/
theorem declarationName_eq_error {name : Node} {error : CompileError}
    (unread : declarationName name = .error error) :
    ¬ name.IsLocalName ∧ ∃ fault position, error = .structuralParse fault position := by
  refine ⟨fun fit => ?_, ?_⟩
  · rw [declarationName_eq_ok_iff.mpr ⟨fit, rfl⟩] at unread
    simp at unread
  · rw [declarationName] at unread
    split at unread
    · exact ⟨_, _, (Except.error.inj unread).symm⟩
    · split at unread
      · simp at unread
      · exact ⟨_, _, (Except.error.inj unread).symm⟩

/-- The kind of the declaration that a declaring node gives. -/
def Node.declaredKind (node : Node) : DeclarationKind :=
  if node.kind = .record then .record else .enumeration

/-- What nodes declare belongs to the user. -/
theorem isUser_of_declaredKind {declaration : Declaration} {node : Node}
    (kind : declaration.kind = node.declaredKind) : declaration.isUser = true := by
  rw [Node.declaredKind] at kind
  split at kind <;> cases declaration <;> simp_all [Declaration.kind, Declaration.isUser]

/-- The shell that a declaring node of a kind is registered with. -/
def emptyShell (kind : NodeKind) (name : String) (parent : Option TypeId) : Declaration :=
  match kind with
  | .record => .record (RecordType.shell name parent)
  | _ => .enumeration (EnumType.shell name parent)

/-- A shell has no contents. -/
theorem emptyShell_bare (kind : NodeKind) (name : String) (parent : Option TypeId) :
    (emptyShell kind name parent).bare = emptyShell kind name parent := by
  unfold emptyShell
  split <;> rfl

/-- A shell belongs to the user. -/
theorem emptyShell_isUser (kind : NodeKind) (name : String) (parent : Option TypeId) :
    (emptyShell kind name parent).isUser = true := by
  unfold emptyShell
  split <;> rfl

/-- A shell has the name that it is registered under. -/
theorem emptyShell_name (kind : NodeKind) (name : String) (parent : Option TypeId) :
    (emptyShell kind name parent).name = name := by
  unfold emptyShell
  split <;> rfl

/-- A shell is of the kind that its node declares. -/
theorem emptyShell_kind (node : Node) (name : String) (parent : Option TypeId) :
    (emptyShell node.kind name parent).kind = node.declaredKind := by
  unfold emptyShell Node.declaredKind
  split <;> simp_all [Declaration.kind]

/-- A shell stands in the parent that is handed down to its node. -/
theorem emptyShell_parent (kind : NodeKind) (name : String) (parent : Option TypeId) :
    (emptyShell kind name parent).parent = parent := by
  unfold emptyShell
  split <;> rfl

/-- Records and enumerations are registered alike: the name is read, qualified and registered. -/
theorem registerNamed_of_declares {kind : NodeKind}
    (declares : kind = .record ∨ kind = .enumeration) (registry : Registry)
    (parent : Option TypeId) (name : Node) :
    registerNamed registry parent kind name =
      match declarationName name with
      | .error error => .error error
      | .ok text =>
        match registry.qualify parent text with
        | .error error => .error (.ofRegistry error)
        | .ok qualified =>
          match registry.register (emptyShell kind qualified parent) with
          | .ok registered => .ok (some registered)
          | .error error => .error (.ofRegistry error) := by
  rcases declares with rfl | rfl
  all_goals
    unfold registerNamed
    cases declarationName name with
    | error error => rfl
    | ok text =>
      simp only [registerRecord, registerEnumeration]
      cases registry.qualify parent text with
      | error error => rfl
      | ok qualified =>
        simp only [emptyShell]
        cases registry.register _ <;> rfl

/-- Nodes of other kinds are not registered. -/
theorem registerNamed_of_silent {kind : NodeKind}
    (silent : kind ≠ .record ∧ kind ≠ .enumeration) (registry : Registry)
    (parent : Option TypeId) (name : Node) :
    registerNamed registry parent kind name = .ok none := by
  cases kind <;> simp_all [registerNamed]

namespace Shells

/-- One step of the first pass: an empty shell is registered, or a declaration is skipped. -/
inductive Step : Shells → Shells → Prop
  | register {shells : Shells} {declaration : Declaration} {id : TypeId} {grown : Registry}
      (shell : declaration.bare = declaration) (user : declaration.isUser = true)
      (success : shells.registry.register declaration = .ok (id, grown)) :
      Step shells { shells with registry := grown }
  | skip (shells : Shells) (parent : Option TypeId) (error : CompileError) :
      Step shells (shells.skip parent error)

/-- To register what a node declares is one step of the first pass. -/
private theorem step_of_registerNamed {shells : Shells} {parent : Option TypeId} {kind : NodeKind}
    {name : Node} {id : TypeId} {grown : Registry}
    (success : registerNamed shells.registry parent kind name = .ok (some (id, grown))) :
    Step shells { shells with registry := grown } := by
  by_cases declares : kind = .record ∨ kind = .enumeration
  · rw [registerNamed_of_declares declares] at success
    split at success
    · simp at success
    · split at success
      · simp at success
      · split at success
        · rename_i registered result
          rw [Except.ok.injEq, Option.some.injEq] at success
          have shell := emptyShell_bare kind
          exact .register (shell _ _) (emptyShell_isUser _ _ _) (success ▸ result)
        · simp at success
  · rw [registerNamed_of_silent (by simpa using declares)] at success
    simp at success

/-- The first pass makes nothing but steps, whatever the shape of the trees. -/
theorem declareAll_steps (parent : Option TypeId) (nodes : List Node) (shells : Shells) :
    ReflTransGen Step shells (declareAll parent nodes shells) := by
  induction nodes using forest_induction generalizing parent shells with
  | nil => exact .refl
  | cons node rest children _ ih =>
    rw [declareAll]
    refine ReflTransGen.trans ?_ (ih parent _)
    obtain ⟨kind, text, below, position⟩ := node
    cases below with
    | nil => exact .refl
    | cons name members =>
      rw [declare]
      cases result : registerNamed shells.registry parent kind name with
      | error error => exact .single (.skip shells parent error)
      | ok outcome =>
        cases outcome with
        | none => exact children none shells
        | some registered =>
          exact .head (step_of_registerNamed result) (children _ _)

/-- What every registration of an empty shell preserves holds after the first pass. -/
theorem registry_induction {I : Registry → Prop} {shells done : Shells}
    (preserved : ∀ registry declaration id grown, declaration.bare = declaration →
      registry.register declaration = .ok (id, grown) → I registry → I grown)
    (run : ReflTransGen Step shells done) (start : I shells.registry) : I done.registry := by
  induction run with
  | refl => exact start
  | tail _ step ih =>
    cases step with
    | register shell _ success => exact preserved _ _ _ _ shell success ih
    | skip parent error =>
      unfold Shells.skip
      split <;> exact ih

/-- The registry after the first pass holds nothing but shells, has distinct names, registers
parents in front of their children and keeps the builtin types. -/
structure Sound (settings : Settings) (registry : Registry) : Prop where
  bare : registry.bare = registry
  distinct : registry.names.Nodup
  precede : registry.ParentsPrecede
  keeps : Registry.Keeps ⟨settings.builtins⟩ registry

/-- A builtin type is found under its name. -/
theorem Sound.find?_builtin {settings : Settings} {registry : Registry}
    (sound : Sound settings registry) {name : String} (builtin : name ∈ settings.builtinNames) :
    ∃ id declaration, registry.find? name = some id ∧
      registry.declarations[id]? = some declaration ∧ declaration.isUser = false := by
  rw [← Settings.map_name_builtins] at builtin
  obtain ⟨index, atIndex⟩ := List.mem_iff_getElem?.mp builtin
  rw [List.getElem?_map] at atIndex
  obtain ⟨original, atBuiltins, rfl⟩ := Option.map_eq_some_iff.mp atIndex
  obtain ⟨kept, atKept, name, kind, _⟩ := sound.keeps.names index original atBuiltins
  have notUser := Settings.isUser_builtins (List.mem_of_getElem? atBuiltins)
  refine ⟨index, kept, name ▸ find?_of_getElem? sound.distinct atKept, atKept, ?_⟩
  cases kept <;> cases original <;> simp_all [Declaration.kind, Declaration.isUser]

/-- Builtin types have no contents. -/
private theorem bare_ofBuiltins (settings : Settings) :
    (⟨settings.builtins⟩ : Registry).bare = ⟨settings.builtins⟩ := by
  rw [Registry.bare, Registry.mk.injEq]
  exact (List.map_congr_left fun _ listed => (Settings.bare_builtins listed).1).trans
    (List.map_id _)

/-- The first pass leaves nothing but shells, also over builtin types that are not distinct. -/
theorem bare_ofSchema (settings : Settings) (schema : Schema) :
    (ofSchema ⟨settings.builtins⟩ schema).registry.bare =
      (ofSchema ⟨settings.builtins⟩ schema).registry := by
  refine registry_induction (I := fun registry => registry.bare = registry) ?_
    (declareAll_steps none schema _) (bare_ofBuiltins settings)
  intro registry shell id grown isShell success bare
  exact bare_of_register bare isShell success

/-- The first pass starts from a sound registry. -/
private theorem sound_builtins {settings : Settings} (distinct : settings.builtinNames.Nodup) :
    Sound settings ⟨settings.builtins⟩ := by
  refine ⟨bare_ofBuiltins settings, ?_, ?_, Keeps.refl _⟩
  · rw [Registry.names, Settings.map_name_builtins]
    exact distinct
  · intro id declaration parent found nested
    rw [(Settings.bare_builtins (List.mem_of_getElem? found)).2] at nested
    simp at nested

/-- The first pass ends with a sound registry, whatever the shape of the trees. -/
theorem sound_ofSchema {settings : Settings} {builtins : Registry}
    (registered : withBuiltins settings.primitives settings.blob = .ok builtins)
    (schema : Schema) : Sound settings (ofSchema builtins schema).registry := by
  obtain ⟨distinct, rfl⟩ := withBuiltins_eq_ok_iff.mp registered
  refine registry_induction (I := Sound settings) ?_ (declareAll_steps none schema _)
    (sound_builtins distinct)
  intro registry declaration id grown shell success sound
  exact ⟨bare_of_register sound.bare shell success,
    nodup_names_of_register sound.distinct success,
    parentsPrecede_of_register sound.precede success,
    sound.keeps.trans (keeps_of_register success)⟩

end Shells

end SchemaGraph
