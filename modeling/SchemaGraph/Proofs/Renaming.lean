import SchemaGraph.Proofs.CompiledGraph

/-!
# Renaming ids

Ids are places in the order of registration and say nothing else. If the names denote the same
up to a renaming of ids, then a node describes the same property up to this renaming, and nodes
fill a shell in with the same contents. Since a node describes one property at most, two graphs
that fill in the same sites agree up to the renaming.
-/

namespace SchemaGraph

/-- Rename the ids in a type. -/
def SchemaType.rename (move : TypeId → TypeId) : SchemaType → SchemaType
  | primitive name => primitive name
  | blob => blob
  | list element => list (element.rename move)
  | set element => set (element.rename move)
  | map key value => map (key.rename move) (value.rename move)
  | enumeration id => enumeration (move id)
  | record id => record (move id)

/-- Rename the ids in a property. -/
def Property.rename (move : TypeId → TypeId) (property : Property) : Property :=
  { property with owner := move property.owner, type := property.type.rename move }

/-- Rename the ids in a declaration. -/
def Declaration.rename (move : TypeId → TypeId) : Declaration → Declaration
  | record type =>
    record { type with
      parent := type.parent.map move
      properties := type.properties.map (Property.rename move)
      children := type.children.map move }
  | enumeration type => enumeration { type with parent := type.parent.map move }
  | builtin => builtin

/-- To leave ids as they are changes no type. -/
@[simp] theorem SchemaType.rename_id (type : SchemaType) : type.rename id = type := by
  induction type with
  | list element ih => rw [rename, ih]
  | set element ih => rw [rename, ih]
  | map key value keyIh valueIh => rw [rename, keyIh, valueIh]
  | _ => rfl

/-- Renaming every id to itself changes no declaration. -/
@[simp] theorem Declaration.rename_id (declaration : Declaration) :
    declaration.rename id = declaration := by
  have properties : Property.rename id = id := by
    funext property
    simp [Property.rename]
  cases declaration <;> simp [Declaration.rename, properties]

/-- Builtin types mention no ids. -/
theorem Declaration.rename_builtin (move : TypeId → TypeId) {declaration : Declaration}
    (builtin : declaration.isUser = false) : declaration.rename move = declaration := by
  cases declaration with
  | record => simp [Declaration.isUser] at builtin
  | enumeration => simp [Declaration.isUser] at builtin
  | _ => rfl

/-- What an expression stands for is renamed if what its names denote is. -/
theorem TypeExpression.Denotes.rename {named named' : String → SchemaType → Prop}
    {move : TypeId → TypeId}
    (renamed : ∀ reference type, named reference type → named' reference (type.rename move))
    {expression : TypeExpression} {type : SchemaType} (denotes : Denotes named expression type) :
    Denotes named' expression (type.rename move) := by
  induction denotes with
  | name found => exact .name (renamed _ _ found)
  | list _ ih => exact .list ih
  | set _ ih => exact .set ih
  | map _ _ keyIh valueIh => exact .map keyIh valueIh

namespace Registry

variable {registry registry' : Registry} {named named' : String → SchemaType → Prop}
  {move : TypeId → TypeId} {camelCaseKeys : Bool}

/-- A renaming that keeps names keeps the representation of types. -/
theorem Represents.rename
    (sameName : ∀ id name, registry.nameOf id = .ok name → registry'.nameOf (move id) = .ok name)
    {type : SchemaType} {kind : PropertyKind} (represents : registry.Represents type kind) :
    registry'.Represents (type.rename move) kind := by
  cases represents with
  | primitive => exact .primitive
  | blob => exact .blob
  | list => exact .list
  | set => exact .set
  | map => exact .map
  | record => exact .record
  | enumeration registered =>
    have named := sameName _ _ (nameOf_eq_ok_iff.mpr ⟨_, registered, rfl⟩)
    obtain ⟨declaration, moved, sameName⟩ := nameOf_eq_ok_iff.mp named
    exact sameName ▸ .enumeration moved

/-- A node describes the same property up to a renaming. -/
theorem Describes.rename
    (renamed : ∀ reference type, named reference type → named' reference (type.rename move))
    (sameName : ∀ id name, registry.nameOf id = .ok name → registry'.nameOf (move id) = .ok name)
    {owner : TypeId} {node : Node} {reading : Property × Bool}
    (describes : registry.Describes named camelCaseKeys owner node reading) :
    registry'.Describes named' camelCaseKeys (move owner) node
      (reading.1.rename move, reading.2) := by
  obtain ⟨spelled, denotes, accepted, represents, commented⟩ := describes
  exact .intro spelled (denotes.rename renamed) accepted (represents.rename sameName) commented

/-- Nodes fill a renamed shell in with the renamed contents. -/
theorem Filled.rename
    (renamed : ∀ reference type, named reference type → named' reference (type.rename move))
    (sameName : ∀ id name, registry.nameOf id = .ok name → registry'.nameOf (move id) = .ok name)
    {id : TypeId} {nodes : List Node} {shell declaration : Declaration}
    (filled : registry.Filled named camelCaseKeys id nodes shell declaration) :
    registry'.Filled named' camelCaseKeys (move id) nodes (shell.rename move)
      (declaration.rename move) := by
  cases filled with
  | builtin builtin =>
    rw [Declaration.rename_builtin move builtin]
    exact .builtin builtin
  | @record type readings comment described commented =>
    have next : registry'.Filled named' camelCaseKeys (move id) nodes
        ((Declaration.record type).rename move) _ :=
      .record (List.forall₂_map_right_iff.mpr
        (described.imp fun _ _ describes => describes.rename renamed sameName)) commented
    simpa [Declaration.rename, Function.comp_def] using next
  | enumeration commented => exact .enumeration commented

/-- A node describes one property at most. -/
theorem Describes.unique
    (functional : ∀ reference type type', named reference type → named reference type' →
      type = type')
    {owner : TypeId} {node : Node} {reading reading' : Property × Bool}
    (describes : registry.Describes named camelCaseKeys owner node reading)
    (describes' : registry.Describes named camelCaseKeys owner node reading') :
    reading = reading' := by
  obtain ⟨spelled, denotes, _, represents, commented⟩ := describes
  obtain ⟨spelled', denotes', _, represents', commented'⟩ := describes'
  obtain ⟨rfl, rfl, rfl⟩ := spelled.unique spelled'
  obtain rfl := denotes.unique functional denotes'
  rw [represents.unique represents', commented.unique commented']

/-- Nodes fill a shell in with one contents at most. -/
theorem Filled.unique
    (functional : ∀ reference type type', named reference type → named reference type' →
      type = type')
    {id : TypeId} {nodes : List Node} {shell declaration declaration' : Declaration}
    (filled : registry.Filled named camelCaseKeys id nodes shell declaration)
    (filled' : registry.Filled named camelCaseKeys id nodes shell declaration') :
    declaration = declaration' := by
  cases filled with
  | builtin builtin =>
    cases filled' with
    | builtin => rfl
    | _ => simp [Declaration.isUser] at builtin
  | record described commented =>
    cases filled' with
    | builtin builtin => simp [Declaration.isUser] at builtin
    | record described' commented' =>
      have right : Relator.RightUnique (registry.Describes named camelCaseKeys id) :=
        fun _ _ _ => Describes.unique functional
      rw [List.right_unique_forall₂' right described described', commented.unique commented']
  | enumeration commented =>
    cases filled' with
    | builtin builtin => simp [Declaration.isUser] at builtin
    | enumeration commented' => rw [commented.unique commented']

end Registry

end SchemaGraph
