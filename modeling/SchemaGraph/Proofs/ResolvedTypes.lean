import SchemaGraph.Proofs.TypeFaults

/-!
# What a resolution accepts and where it fails

A type expression is resolved from a position in a sequence of nodes. The resolution succeeds
exactly if an expression of known names is spelled from there, and ends behind it. Otherwise it
fails with the first fault from left to right and with no other. The nodes in front of the position
and behind the expression have no say in this.
-/

namespace SchemaGraph

open Node TypeExpression

/-- A mapped result is a failure exactly if the result is one. -/
theorem map_eq_error_iff {ε α β : Type} {f : α → β} {result : Except ε α} {error : ε} :
    result.map f = .error error ↔ result = .error error := by
  cases result <;> simp [Except.map]

namespace Registry

/-- From inside a scope something registered is found under the name. -/
def Finds (registry : Registry) (scope : Option TypeId) (reference : String) : Prop :=
  ∃ id, registry.resolve scope reference = .ok id

/-- From inside a scope the name refers to the type of what is found under it. -/
def RefersTo (registry : Registry) (scope : Option TypeId) (reference : String)
    (type : SchemaType) : Prop :=
  ∃ id, registry.resolve scope reference = .ok id ∧ registry.typeOf id = .ok type

/-- Resolve the type expression that begins at a position; the answer says where it ends. -/
def resolveAt (registry : Registry) (scope : Option TypeId) (tokens : List Node) (start : Nat) :
    Except CompileError (SchemaType × Nat) :=
  (registry.resolveType scope (tokens.drop start)).map fun (type, rest) =>
    (type, tokens.length - rest.length)

section Resolve

variable {registry : Registry} {scope : Option TypeId}

/-- A scope that is registered has a name. -/
theorem exists_scopeName (known : ∀ id, scope = some id → id < registry.size) :
    ∃ around, registry.scopeName scope = .ok around := by
  cases scope with
  | none => exact ⟨none, rfl⟩
  | some id =>
    have inRange := known id rfl
    have named : registry.nameOf id = .ok registry.declarations[id].name :=
      nameOf_eq_ok_iff.mpr ⟨_, List.getElem?_eq_getElem inRange, rfl⟩
    exact ⟨_, by rw [scopeName, named]; rfl⟩

/-- What is found has a type. -/
theorem exists_typeOf_of_resolve {reference : String} {id : TypeId}
    (found : registry.resolve scope reference = .ok id) :
    ∃ type, registry.typeOf id = .ok type := by
  rw [resolve] at found
  split at found
  · split at found
    · rename_i first
      obtain rfl := Except.ok.inj found
      obtain ⟨candidate, _, atCandidate⟩ := List.exists_of_findSome?_eq_some first
      obtain ⟨declaration, atId, _⟩ := name_of_find? atCandidate
      rw [typeOf, get_eq_ok_iff.mpr atId]
      exact ⟨_, rfl⟩
    · simp at found
  · simp at found

/-- A name denotes a type exactly if it refers to a declaration of this type. -/
theorem typeNamed_eq_ok_iff {reference : String} {type : SchemaType} :
    registry.typeNamed scope reference = .ok type ↔ registry.RefersTo scope reference type := by
  rw [typeNamed, RefersTo]
  cases registry.resolve scope reference with
  | error error => simp
  | ok id =>
    simp only [Except.ok.injEq, exists_eq_left']
    cases registry.typeOf id <;> simp

/-- A name denotes something exactly if it is found. -/
theorem exists_typeNamed_iff {reference : String} :
    (∃ type, registry.typeNamed scope reference = .ok type) ↔ registry.Finds scope reference := by
  constructor
  · intro named
    obtain ⟨type, typed⟩ := named
    obtain ⟨id, found, _⟩ := typeNamed_eq_ok_iff.mp typed
    exact ⟨id, found⟩
  · intro finds
    obtain ⟨id, found⟩ := finds
    obtain ⟨type, typed⟩ := exists_typeOf_of_resolve found
    exact ⟨type, typeNamed_eq_ok_iff.mpr ⟨id, found, typed⟩⟩

/-- A name that denotes nothing is reported together with the scope. -/
theorem typeNamed_eq_error_iff {around : Option String}
    (named : registry.scopeName scope = .ok around) {reference : String} {error : CompileError} :
    registry.typeNamed scope reference = .error error ↔
      ¬ registry.Finds scope reference ∧ error = .typeNotFound reference around := by
  rw [← exists_typeNamed_iff]
  have found := @exists_typeOf_of_resolve registry scope reference
  rw [typeNamed]
  rw [resolve, named] at found ⊢
  cases first : (registry.candidates scope reference).findSome? registry.find? with
  | some id =>
    rw [first] at found
    obtain ⟨type, typed⟩ := found rfl
    simp [typed]
  | none => simp [CompileError.ofRegistry, eq_comm]

/-- Behind the marker of a name, a resolution fails if the name is missing, is none or denotes
nothing. -/
private theorem stuckWith_of_name {around : Option String}
    (named : registry.scopeName scope = .ok around) {marker : Node}
    (isMarker : marker.kind = .typePrimitive) {tokens : List Node} {error : CompileError}
    (failure : registry.resolveType scope (marker :: tokens) = .error error) :
    StuckWith (registry.Finds scope) around (marker :: tokens) error := by
  have allows {name : Node} (isToken : name.kind = .token) : Allows [marker] name :=
    ⟨.name name.text, [], .name isMarker isToken⟩
  have read : ReadSoFar (registry.Finds scope) [marker] :=
    ⟨⟨token "", allows rfl⟩, by simp [isMarker]⟩
  have awaits : AwaitsName [marker] := by simp [AwaitsName, isMarker]
  refine ⟨[marker], tokens, rfl, read, ?_⟩
  rw [resolveType_primitive registry scope isMarker] at failure
  cases tokens with
  | nil =>
    obtain rfl := Except.error.inj failure
    have refused : Refused (registry.Finds scope) around [marker] [] _ := .ended
    rwa [if_pos awaits] at refused
  | cons name rest =>
    dsimp only at failure
    by_cases isToken : name.kind = .token
    · rw [if_pos isToken] at failure
      obtain ⟨unknown, rfl⟩ :=
        (typeNamed_eq_error_iff named).mp (map_eq_error_iff.mp failure)
      exact .unknown (allows isToken) isToken unknown
    · rw [if_neg isToken] at failure
      obtain rfl := Except.error.inj failure
      have forbidden : ¬ Allows [marker] name := by
        intro allowed
        obtain ⟨expression, tail, spelled⟩ := allowed
        obtain ⟨reference, only, isReference⟩ := spelled.of_name isMarker
        obtain ⟨rfl, _⟩ := List.cons.inj only
        exact isToken isReference
      have refused : Refused (registry.Finds scope) around [marker] (name :: rest) _ :=
        .misplaced forbidden
      rwa [if_pos awaits] at refused

/-- A resolution that fails gets stuck. -/
theorem stuckWith_of_resolveType {around : Option String}
    (named : registry.scopeName scope = .ok around) {tokens : List Node} {error : CompileError}
    (failure : registry.resolveType scope tokens = .error error) :
    StuckWith (registry.Finds scope) around tokens error := by
  -- Behind a marker the operands get stuck as they do by themselves. A map may get stuck in its
  -- key, or in its value behind a key that has been read.
  induction tokens using reading_induction registry scope generalizing error with
  | nil =>
    rw [resolveType_nil] at failure
    obtain rfl := Except.error.inj failure
    exact ⟨[], [], rfl, ⟨incomplete_nil, by simp⟩, .ended⟩
  | cons marker tokens ih middleIh =>
    by_cases isName : marker.kind = .typePrimitive
    · exact stuckWith_of_name named isName failure
    by_cases isList : marker.kind = .typeList
    · rw [resolveType_list registry scope isList, map_eq_error_iff] at failure
      exact (ih failure).prepend (leadsTo_element (.inl isList))
    by_cases isSet : marker.kind = .typeSet
    · rw [resolveType_set registry scope isSet, map_eq_error_iff] at failure
      exact (ih failure).prepend (leadsTo_element (.inr isSet))
    by_cases isMap : marker.kind = .typeMap
    · rw [resolveType_map registry scope isMap] at failure
      cases first : registry.resolveType scope tokens with
      | error keyError =>
        rw [first] at failure
        obtain rfl := Except.error.inj failure
        exact (ih first).prepend (leadsTo_key isMap)
      | ok result =>
        obtain ⟨type, middle⟩ := result
        rw [first] at failure
        obtain ⟨key, front, rfl, spelled, denotes⟩ := resolveType_eq_ok_iff_spells.mp first
        have stuck := middleIh type middle first (map_eq_error_iff.mp failure)
        refine stuck.prepend (leadsTo_value isMap spelled fun node listed isToken => ?_)
        exact exists_typeNamed_iff.mp (denotes.names spelled node listed isToken)
    · rw [resolveType_other registry scope isName isList isSet isMap] at failure
      obtain rfl := Except.error.inj failure
      refine ⟨[], marker :: tokens, rfl, ⟨incomplete_nil, by simp⟩, ?_⟩
      refine .misplaced fun allowed => ?_
      obtain ⟨expression, tail, spelled⟩ := allowed
      rw [List.nil_append] at spelled
      cases spelled <;> simp_all

/-- A resolution fails exactly if it gets stuck, and with the fault that it gets stuck at. -/
theorem resolveType_eq_error_iff {around : Option String}
    (named : registry.scopeName scope = .ok around) {tokens : List Node} {error : CompileError} :
    registry.resolveType scope tokens = .error error ↔
      StuckWith (registry.Finds scope) around tokens error := by
  constructor
  · exact stuckWith_of_resolveType named
  · intro stuck
    cases result : registry.resolveType scope tokens with
    | error other =>
      rw [stuck.unique (stuckWith_of_resolveType named result)]
    | ok reading =>
      obtain ⟨type, rest⟩ := reading
      obtain ⟨expression, front, split, spelled, denotes⟩ := resolveType_eq_ok_iff_spells.mp result
      refine (stuck.not_spells split spelled fun node listed isToken => ?_).elim
      exact exists_typeNamed_iff.mp (denotes.names spelled node listed isToken)

end Resolve

end Registry

namespace TypeExpression

/-- The nodes from one position up to another spell an expression. -/
structure SpelledAt (tokens : List Node) (start stop : Nat) (expression : TypeExpression) :
    Prop where
  inside : stop ≤ tokens.length
  spelled : Spells expression (tokens.extract start stop)

section Positions

variable {tokens : List Node} {start stop stop' : Nat} {expression expression' : TypeExpression}

/-- An expression that is spelled at a place is spelled at the front of what begins there. -/
theorem spelledAt_iff :
    SpelledAt tokens start stop expression ↔
      ∃ front rest, tokens.drop start = front ++ rest ∧ Spells expression front ∧
        stop = start + front.length := by
  constructor
  · intro at_
    have notEmpty := at_.spelled.ne_nil
    have inside := at_.inside
    have forward : start < stop := by
      by_contra behind
      apply notEmpty
      rw [List.extract_eq_take_drop, Nat.sub_eq_zero_of_le (Nat.le_of_not_lt behind)]
      rfl
    refine ⟨_, (tokens.drop start).drop (stop - start), ?_, at_.spelled, ?_⟩
    · rw [List.extract_eq_take_drop, List.take_append_drop]
    · rw [List.extract_eq_take_drop, List.length_take, List.length_drop]
      omega
  · intro parts
    obtain ⟨front, rest, split, spelled, rfl⟩ := parts
    have lengths := congrArg List.length split
    rw [List.length_drop, List.length_append] at lengths
    have positive := List.length_pos_iff.mpr spelled.ne_nil
    refine ⟨by omega, ?_⟩
    rwa [List.extract_eq_take_drop, Nat.add_sub_cancel_left, split, List.take_left']
    rfl

/-- The place is as long as the spelling. -/
theorem SpelledAt.length_extract (spelledAt : SpelledAt tokens start stop expression) :
    (tokens.extract start stop).length = stop - start := by
  have inside := spelledAt.inside
  rw [List.extract_eq_take_drop, List.length_take, List.length_drop]
  omega

/-- At a position at most one expression is spelled, and it ends at one position. -/
theorem SpelledAt.unique (first : SpelledAt tokens start stop expression)
    (second : SpelledAt tokens start stop' expression') : stop = stop' := by
  obtain ⟨front, rest, split, spelled, rfl⟩ := spelledAt_iff.mp first
  obtain ⟨front', rest', split', spelled', rfl⟩ := spelledAt_iff.mp second
  obtain ⟨_, rfl, _⟩ := spelled.unique spelled' (split.symm.trans split')
  rfl

end Positions

end TypeExpression

namespace Registry

section ResolveAt

variable {registry : Registry} {scope : Option TypeId} {type : SchemaType}

/-- Exactly the spelled expressions whose names refer to something are resolved. -/
theorem resolveAt_eq_ok_iff {tokens : List Node} {start stop : Nat} :
    registry.resolveAt scope tokens start = .ok (type, stop) ↔
      ∃ expression, SpelledAt tokens start stop expression ∧
        Denotes (registry.RefersTo scope) expression type := by
  have meaning : (fun reference type => registry.typeNamed scope reference = .ok type) =
      registry.RefersTo scope := by
    funext reference type
    exact propext typeNamed_eq_ok_iff
  rw [resolveAt, map_eq_ok_iff]
  constructor
  · intro success
    obtain ⟨⟨found, rest⟩, resolved, ends⟩ := success
    obtain ⟨expression, front, split, spelled, denotes⟩ := resolveType_eq_ok_iff_spells.mp resolved
    obtain ⟨rfl, rfl⟩ := Prod.mk.inj ends
    have lengths := congrArg List.length split
    have positive := List.length_pos_iff.mpr spelled.ne_nil
    rw [List.length_drop, List.length_append] at lengths
    exact ⟨expression, spelledAt_iff.mpr ⟨front, rest, split, spelled, by omega⟩,
      meaning ▸ denotes⟩
  · intro spelledAt
    obtain ⟨expression, spelledAt, denotes⟩ := spelledAt
    obtain ⟨front, rest, split, spelled, rfl⟩ := spelledAt_iff.mp spelledAt
    have lengths := congrArg List.length split
    have positive := List.length_pos_iff.mpr spelled.ne_nil
    rw [List.length_drop, List.length_append] at lengths
    rw [← meaning] at denotes
    refine ⟨(type, rest), resolveType_eq_ok_iff_spells.mpr ⟨_, _, split, spelled, denotes⟩, ?_⟩
    rw [Prod.mk.injEq]
    exact ⟨rfl, by omega⟩

/-- Wherever an expression is spelled, it is read as a whole. -/
theorem resolveAt_of_spells {expression : TypeExpression} {front : List Node}
    (spelled : Spells expression front)
    (denotes : Denotes (registry.RefersTo scope) expression type) (before behind : List Node) :
    registry.resolveAt scope (before ++ front ++ behind) before.length =
      .ok (type, before.length + front.length) := by
  refine resolveAt_eq_ok_iff.mpr ⟨expression, spelledAt_iff.mpr ⟨front, behind, ?_, spelled, rfl⟩,
    denotes⟩
  rw [List.append_assoc, List.drop_left']
  rfl

/-- The type at a position is read exactly if an expression is spelled there whose names all refer
to something, and it is what the expression stands for. It ends where the spelling ends, and the
nodes around the spelling have no say. Otherwise the reading fails, with the fault at which it gets
stuck from left to right. Every expression of names that refer to something can be spelled, and
wherever it is spelled it is read. -/
theorem resolveAt_reads_expressions (registry : Registry) (scope : Option TypeId)
    (known : ∀ id, scope = some id → id < registry.size) :
    (∀ tokens start type stop, registry.resolveAt scope tokens start = .ok (type, stop) ↔
      ∃ expression, SpelledAt tokens start stop expression ∧
        Denotes (registry.RefersTo scope) expression type) ∧
    (∀ tokens start type stop, registry.resolveAt scope tokens start = .ok (type, stop) →
      stop ≤ tokens.length ∧
      (∀ other expression, SpelledAt tokens start other expression → other = stop) ∧
      ∀ before behind,
        registry.resolveAt scope (before ++ tokens.extract start stop ++ behind) before.length =
          .ok (type, before.length + (stop - start))) ∧
    (∃ around, registry.scopeName scope = .ok around ∧
      ∀ tokens start error, registry.resolveAt scope tokens start = .error error ↔
        StuckWith (registry.Finds scope) around (tokens.drop start) error) ∧
    ∀ expression : TypeExpression,
      (∀ reference ∈ expression.references, registry.Finds scope reference) →
      Spells expression expression.spelling ∧
      ∃ type, Denotes (registry.RefersTo scope) expression type ∧
        ∀ front, Spells expression front → ∀ before behind,
          registry.resolveAt scope (before ++ front ++ behind) before.length =
            .ok (type, before.length + front.length) := by
  refine ⟨fun _ _ _ _ => resolveAt_eq_ok_iff, fun tokens start type stop success => ?_, ?_,
    fun expression finds => ⟨spells_spelling expression, ?_⟩⟩
  · obtain ⟨expression, spelledAt, denotes⟩ := resolveAt_eq_ok_iff.mp success
    refine ⟨spelledAt.inside, fun other expression' other' => other'.unique spelledAt,
      fun before behind => ?_⟩
    rw [resolveAt_of_spells spelledAt.spelled denotes, spelledAt.length_extract]
  · obtain ⟨around, named⟩ := exists_scopeName known
    refine ⟨around, named, fun tokens start error => ?_⟩
    rw [resolveAt, map_eq_error_iff, resolveType_eq_error_iff named]
  · have meaning : ∀ reference ∈ expression.references,
        ∃ type, registry.RefersTo scope reference type := by
      intro reference listed
      obtain ⟨type, named⟩ := exists_typeNamed_iff.mpr (finds reference listed)
      exact ⟨type, typeNamed_eq_ok_iff.mp named⟩
    obtain ⟨type, denotes⟩ := (exists_denotes_iff _ _).mpr meaning
    exact ⟨type, denotes, fun _ spelled => resolveAt_of_spells spelled denotes⟩

/-- A record with an enumeration nested in it. -/
def orderTypes : Registry :=
  ⟨[.primitive "int", .record { RecordType.shell "Order" none with children := [2] },
    .enumeration (EnumType.shell "Order.Status" (some 1))]⟩

/-- A nested expression is read between other nodes; an unknown name in it is reported with its
scope. -/
theorem resolveAt_reads_expressions_orderTypes :
    1 < orderTypes.size ∧
      orderTypes.resolveAt (some 1)
        ([eof] ++ (TypeExpression.map (.name "Status") (.list (.name "int"))).spelling ++
          [comment "note"]) 1 = .ok (.map (.enumeration 2) (.list (.primitive "int")), 7) ∧
      orderTypes.resolveAt (some 1)
        (TypeExpression.map (.name "Status") (.list (.name "text"))).spelling 0 =
          .error (.typeNotFound "text" (some "Order")) := by
  obtain ⟨accepts, _, ⟨around, named, rejects⟩, _⟩ :=
    resolveAt_reads_expressions orderTypes (some 1) (by decide)
  obtain rfl : around = some "Order" := (Except.ok.inj named).symm
  have status : orderTypes.RefersTo (some 1) "Status" (.enumeration 2) :=
    ⟨2, by decide, by decide⟩
  have int : orderTypes.RefersTo (some 1) "int" (.primitive "int") := ⟨0, by decide, by decide⟩
  have missing : ¬ orderTypes.Finds (some 1) "text" := by
    have unresolved : orderTypes.resolve (some 1) "text" =
        .error (.typeNotFound "text" (some "Order")) := by decide
    simp [Finds, unresolved]
  let front := (TypeExpression.map (.name "Status") (.list (.name "text"))).spelling.take 5
  have allowed : Allows front (token "text") :=
    ⟨_, [], spells_spelling (.map (.name "Status") (.list (.name "text")))⟩
  have names : ∀ node ∈ front, node.kind = .token → node.text = "Status" := by decide
  refine ⟨by decide, (accepts _ _ _ _).mpr ?_, (rejects _ _ _).mpr ?_⟩
  · exact ⟨.map (.name "Status") (.list (.name "int")), ⟨by decide, spells_spelling _⟩,
      .map (.name status) (.list (.name int))⟩
  · refine ⟨front, [token "text"], rfl, ⟨⟨_, allowed⟩, fun node listed isToken => ?_⟩,
      .unknown allowed rfl missing⟩
    rw [names node listed isToken]
    exact ⟨2, by decide⟩

end ResolveAt

end Registry

end SchemaGraph
