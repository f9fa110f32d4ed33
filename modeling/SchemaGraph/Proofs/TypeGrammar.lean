import Mathlib.Data.List.Infix
import SchemaGraph.Resolution

/-!
# The grammar of type expressions

A type expression is a tree of containers with names at its leaves. It is spelled in prefix
form: every marker stands in front of its operands. Reading a sequence succeeds exactly if the
sequence begins with the spelling of an expression all of whose names denote a type, and what
is left is what stands behind the spelling.
-/

namespace SchemaGraph

/-- A mapped result is a success exactly if the result is one. -/
theorem map_eq_ok_iff {ε α β : Type} {f : α → β} {result : Except ε α} {value : β} :
    result.map f = .ok value ↔ ∃ inner, result = .ok inner ∧ f inner = value := by
  cases result <;> simp [Except.map]

/-- What a reading leaves is left as it is when what has been read is mapped. -/
theorem map_reading_eq_ok_iff {ε α β γ : Type} {f : α → β} {result : Except ε (α × γ)}
    {value : β} {rest : γ} :
    (result.map fun (found, left) => (f found, left)) = .ok (value, rest) ↔
      ∃ found, result = .ok (found, rest) ∧ f found = value := by
  simp only [map_eq_ok_iff, Prod.exists, Prod.mk.injEq]
  constructor
  · rintro ⟨found, _, success, isValue, rfl⟩
    exact ⟨found, success, isValue⟩
  · rintro ⟨found, success, isValue⟩
    exact ⟨found, rest, success, isValue, rfl⟩

/-- A type expression of a schema. -/
inductive TypeExpression
  | name (reference : String)
  | list (element : TypeExpression)
  | set (element : TypeExpression)
  | map (key value : TypeExpression)

namespace TypeExpression

/-- The nodes spell the expression: every marker is followed by its operands. -/
inductive Spells : TypeExpression → List Node → Prop
  | name {marker token : Node} (isMarker : marker.kind = .typePrimitive)
      (isToken : token.kind = .token) : Spells (.name token.text) [marker, token]
  | list {marker : Node} {element : TypeExpression} {tokens : List Node}
      (isMarker : marker.kind = .typeList) (spelled : Spells element tokens) :
      Spells (.list element) (marker :: tokens)
  | set {marker : Node} {element : TypeExpression} {tokens : List Node}
      (isMarker : marker.kind = .typeSet) (spelled : Spells element tokens) :
      Spells (.set element) (marker :: tokens)
  | map {marker : Node} {key value : TypeExpression} {front back : List Node}
      (isMarker : marker.kind = .typeMap) (spelledKey : Spells key front)
      (spelledValue : Spells value back) : Spells (.map key value) (marker :: (front ++ back))

/-- The type that an expression stands for, given what its names denote. -/
inductive Denotes (named : String → SchemaType → Prop) : TypeExpression → SchemaType → Prop
  | name {reference : String} {type : SchemaType} (found : named reference type) :
      Denotes named (.name reference) type
  | list {element : TypeExpression} {type : SchemaType} (inner : Denotes named element type) :
      Denotes named (.list element) (.list type)
  | set {element : TypeExpression} {type : SchemaType} (inner : Denotes named element type) :
      Denotes named (.set element) (.set type)
  | map {key value : TypeExpression} {keyType valueType : SchemaType}
      (atKey : Denotes named key keyType) (atValue : Denotes named value valueType) :
      Denotes named (.map key value) (.map keyType valueType)

/-- The names in an expression, from left to right. -/
def references : TypeExpression → List String
  | name reference => [reference]
  | list element => element.references
  | set element => element.references
  | map key value => key.references ++ value.references

/-- An expression stands for a type as soon as each of its names denotes one. -/
theorem exists_denotes_iff (named : String → SchemaType → Prop) (expression : TypeExpression) :
    (∃ type, Denotes named expression type) ↔
      ∀ reference ∈ expression.references, ∃ type, named reference type := by
  induction expression with
  | name reference =>
    simp only [references, List.mem_singleton, forall_eq]
    constructor
    · rintro ⟨type, denotes⟩
      cases denotes with
      | name found => exact ⟨type, found⟩
    · rintro ⟨type, found⟩
      exact ⟨type, .name found⟩
  | list element ih =>
    rw [references, ← ih]
    constructor
    · rintro ⟨_, denotes⟩
      cases denotes with
      | list inner => exact ⟨_, inner⟩
    · rintro ⟨_, inner⟩
      exact ⟨_, .list inner⟩
  | set element ih =>
    rw [references, ← ih]
    constructor
    · rintro ⟨_, denotes⟩
      cases denotes with
      | set inner => exact ⟨_, inner⟩
    · rintro ⟨_, inner⟩
      exact ⟨_, .set inner⟩
  | map key value keyIh valueIh =>
    rw [references, List.forall_mem_append, ← keyIh, ← valueIh]
    constructor
    · rintro ⟨_, denotes⟩
      cases denotes with
      | map atKey atValue => exact ⟨⟨_, atKey⟩, ⟨_, atValue⟩⟩
    · rintro ⟨⟨_, atKey⟩, ⟨_, atValue⟩⟩
      exact ⟨_, .map atKey atValue⟩

/-- What an expression stands for depends on the meaning of its names only. -/
theorem Denotes.mono {named named' : String → SchemaType → Prop} {expression : TypeExpression}
    {type : SchemaType} (weaker : ∀ reference type, named reference type → named' reference type)
    (denotes : Denotes named expression type) : Denotes named' expression type := by
  induction denotes with
  | name found => exact .name (weaker _ _ found)
  | list _ ih => exact .list ih
  | set _ ih => exact .set ih
  | map _ _ keyIh valueIh => exact .map keyIh valueIh

end TypeExpression

namespace Registry

variable (registry : Registry) (scope : Option TypeId)

/-- A type is expected but nothing is there. -/
theorem resolveType_nil :
    registry.resolveType scope [] = .error (.malformedType .endedBeforeType) := by
  rw [resolveType, readType]

/-- A name stands behind its marker. -/
theorem resolveType_primitive {marker : Node} (isMarker : marker.kind = .typePrimitive)
    (tokens : List Node) :
    registry.resolveType scope (marker :: tokens) =
      match tokens with
      | [] => .error (.malformedType .endedBeforeName)
      | name :: rest =>
        if name.kind = .token then (registry.typeNamed scope name.text).map fun type => (type, rest)
        else .error (.malformedType (.nameExpected name.kind)) := by
  rw [resolveType, readType]
  simp only [isMarker]
  cases tokens with
  | nil => rfl
  | cons name rest =>
    rw [readName]
    by_cases isToken : name.kind = .token
    · rw [if_pos isToken]
      simp only [isToken, ↓reduceIte]
      cases registry.typeNamed scope name.text <;> rfl
    · rw [if_neg isToken]
      simp only [isToken, ↓reduceIte]

/-- The element of a list stands behind the marker of the list. -/
theorem resolveType_list {marker : Node} (isMarker : marker.kind = .typeList)
    (tokens : List Node) :
    registry.resolveType scope (marker :: tokens) =
      (registry.resolveType scope tokens).map fun (element, rest) => (.list element, rest) := by
  rw [resolveType, resolveType, readType]
  simp only [isMarker]
  cases registry.readType scope tokens <;> rfl

/-- The element of a set stands behind the marker of the set. -/
theorem resolveType_set {marker : Node} (isMarker : marker.kind = .typeSet)
    (tokens : List Node) :
    registry.resolveType scope (marker :: tokens) =
      (registry.resolveType scope tokens).map fun (element, rest) => (.set element, rest) := by
  rw [resolveType, resolveType, readType]
  simp only [isMarker]
  cases registry.readType scope tokens <;> rfl

/-- The value of a map stands behind its key. -/
theorem resolveType_map {marker : Node} (isMarker : marker.kind = .typeMap)
    (tokens : List Node) :
    registry.resolveType scope (marker :: tokens) =
      match registry.resolveType scope tokens with
      | .ok (key, middle) =>
        (registry.resolveType scope middle).map fun (value, rest) => (.map key value, rest)
      | .error error => .error error := by
  rw [resolveType, resolveType, readType]
  simp only [isMarker]
  cases registry.readType scope tokens with
  | error error => rfl
  | ok first =>
    obtain ⟨key, middle, _⟩ := first
    simp only
    rw [resolveType]
    cases registry.readType scope middle <;> rfl

/-- No type begins with any other node. -/
theorem resolveType_other {marker : Node} (notName : marker.kind ≠ .typePrimitive)
    (notList : marker.kind ≠ .typeList) (notSet : marker.kind ≠ .typeSet)
    (notMap : marker.kind ≠ .typeMap) (tokens : List Node) :
    registry.resolveType scope (marker :: tokens) =
      .error (.malformedType (.unexpected marker.kind marker.text)) := by
  rw [resolveType, readType]
  cases kind : marker.kind <;> simp_all

/-- A reading uses up at least one node. -/
theorem length_lt_of_resolveType {registry : Registry} {scope : Option TypeId}
    {tokens rest : List Node} {type : SchemaType}
    (success : registry.resolveType scope tokens = .ok (type, rest)) :
    rest.length < tokens.length := by
  rw [resolveType] at success
  cases reading : registry.readType scope tokens with
  | error error => simp [reading] at success
  | ok result =>
    obtain ⟨found, left, shorter⟩ := result
    simp only [reading, Except.ok.injEq, Prod.mk.injEq] at success
    exact success.2 ▸ shorter

/-- Induction over a reading: behind a marker it goes on with the nodes that follow, and behind
the key of a map with those that the key left. -/
theorem reading_induction {motive : List Node → Prop} (nil : motive [])
    (cons : ∀ marker tokens, motive tokens →
      (∀ type middle, registry.resolveType scope tokens = .ok (type, middle) → motive middle) →
      motive (marker :: tokens)) (tokens : List Node) : motive tokens := by
  induction size : tokens.length using Nat.strong_induction_on generalizing tokens with
  | _ size ih =>
    cases tokens with
    | nil => exact nil
    | cons marker rest =>
      rw [List.length_cons] at size
      refine cons marker rest (ih _ (by omega) rest rfl) fun type middle success => ?_
      have shorter := length_lt_of_resolveType success
      exact ih _ (by omega) middle rfl

variable {registry scope}

open TypeExpression

/-- The spelling of an expression is read as a whole, and nothing behind it. -/
private theorem resolveType_of_spells {expression : TypeExpression} {front : List Node}
    {type : SchemaType} (spelled : Spells expression front)
    (denotes : Denotes (fun reference type => registry.typeNamed scope reference = .ok type)
      expression type) (rest : List Node) :
    registry.resolveType scope (front ++ rest) = .ok (type, rest) := by
  induction spelled generalizing type rest with
  | name isMarker isToken =>
    cases denotes with
    | name found =>
      simp [resolveType_primitive registry scope isMarker, isToken, found, Except.map]
  | list isMarker _ ih =>
    cases denotes with
    | list inner =>
      rw [List.cons_append, resolveType_list registry scope isMarker, ih inner]
      rfl
  | set isMarker _ ih =>
    cases denotes with
    | set inner =>
      rw [List.cons_append, resolveType_set registry scope isMarker, ih inner]
      rfl
  | map isMarker _ _ keyIh valueIh =>
    cases denotes with
    | map atKey atValue =>
      rw [List.cons_append, List.append_assoc, resolveType_map registry scope isMarker,
        keyIh atKey]
      simp only
      rw [valueIh atValue]
      rfl

/-- Whatever is read was spelled out at the front of the sequence. -/
private theorem spells_of_resolveType {tokens rest : List Node} {type : SchemaType}
    (success : registry.resolveType scope tokens = .ok (type, rest)) :
    ∃ expression front, tokens = front ++ rest ∧ Spells expression front ∧
      Denotes (fun reference type => registry.typeNamed scope reference = .ok type)
        expression type := by
  induction tokens using reading_induction registry scope generalizing type rest with
  | nil => simp [resolveType_nil] at success
  | cons marker tokens ih middleIh =>
    by_cases isName : marker.kind = .typePrimitive
    · rw [resolveType_primitive registry scope isName] at success
      cases tokens with
      | nil => simp at success
      | cons token left =>
        simp only at success
        split at success
        · rename_i isToken
          obtain ⟨found, named, result⟩ := map_eq_ok_iff.mp success
          simp only [Prod.mk.injEq] at result
          obtain ⟨rfl, rfl⟩ := result
          exact ⟨_, _, rfl, .name isName isToken, .name named⟩
        · simp at success
    · by_cases isList : marker.kind = .typeList
      · rw [resolveType_list registry scope isList] at success
        obtain ⟨element, inner, rfl⟩ := map_reading_eq_ok_iff.mp success
        obtain ⟨expression, front, rfl, spelled, denotes⟩ := ih inner
        exact ⟨_, _, rfl, .list isList spelled, .list denotes⟩
      · by_cases isSet : marker.kind = .typeSet
        · rw [resolveType_set registry scope isSet] at success
          obtain ⟨element, inner, rfl⟩ := map_reading_eq_ok_iff.mp success
          obtain ⟨expression, front, rfl, spelled, denotes⟩ := ih inner
          exact ⟨_, _, rfl, .set isSet spelled, .set denotes⟩
        · by_cases isMap : marker.kind = .typeMap
          · rw [resolveType_map registry scope isMap] at success
            cases first : registry.resolveType scope tokens with
            | error error => simp [first] at success
            | ok result =>
              obtain ⟨key, middle⟩ := result
              simp only [first] at success
              obtain ⟨value, second, rfl⟩ := map_reading_eq_ok_iff.mp success
              obtain ⟨keyExpression, front, rfl, keySpelled, atKey⟩ := ih first
              obtain ⟨valueExpression, back, rfl, valueSpelled, atValue⟩ :=
                middleIh key middle first second
              exact ⟨_, _, by rw [← List.append_assoc]; rfl, .map isMap keySpelled valueSpelled,
                .map atKey atValue⟩
          · rw [resolveType_other registry scope isName isList isSet isMap] at success
            simp at success

/-- Reading accepts exactly the spellings of expressions whose names all denote a type. -/
theorem resolveType_eq_ok_iff_spells {tokens rest : List Node} {type : SchemaType} :
    registry.resolveType scope tokens = .ok (type, rest) ↔
      ∃ expression front, tokens = front ++ rest ∧ Spells expression front ∧
        Denotes (fun reference type => registry.typeNamed scope reference = .ok type)
          expression type := by
  constructor
  · exact spells_of_resolveType
  · rintro ⟨expression, front, rfl, spelled, denotes⟩
    exact resolveType_of_spells spelled denotes rest

end Registry

end SchemaGraph
