import SchemaGraph.Proofs.PropertyNodes

/-!
# The first fault of a type expression

A sequence of nodes that begins with no type expression is read up to the first node that no
expression allows there, or whose name denotes nothing, or up to its end. That place and its fault
are said here by the grammar alone: what stands in front of it begins an expression that is not
complete, and all names in it are known. There is at most one such place.
-/

namespace SchemaGraph

open Node TypeExpression

namespace TypeExpression

/-- The plainest nodes that spell an expression. -/
def spelling : TypeExpression → List Node
  | name reference => [make .typePrimitive "type" [], token reference]
  | list element => make .typeList "list" [] :: element.spelling
  | set element => make .typeSet "set" [] :: element.spelling
  | map key value => make .typeMap "map" [] :: (key.spelling ++ value.spelling)

/-- The spelling of an expression spells it. -/
theorem spells_spelling (expression : TypeExpression) : Spells expression expression.spelling := by
  induction expression with
  | name reference =>
    have isToken : (token reference).kind = .token := rfl
    exact .name rfl isToken
  | list element ih => exact .list rfl ih
  | set element ih => exact .set rfl ih
  | map key value keyIh valueIh => exact .map rfl keyIh valueIh

/-- Behind the front an expression may go on with the node. -/
def Allows (front : List Node) (next : Node) : Prop :=
  ∃ expression tail, Spells expression (front ++ next :: tail)

/-- The front begins an expression and does not complete it. -/
def Incomplete (front : List Node) : Prop :=
  ∃ next, Allows front next

/-- The front ends with the marker of a name. -/
def AwaitsName (front : List Node) : Prop :=
  front.getLast?.map Node.kind = some .typePrimitive

instance (front : List Node) : Decidable (AwaitsName front) :=
  inferInstanceAs (Decidable (_ = _))

/-- The front begins an expression, does not complete it, and all names in it are known. -/
structure ReadSoFar (known : String → Prop) (front : List Node) : Prop where
  incomplete : Incomplete front
  names : ∀ node ∈ front, node.kind = .token → known node.text

/-- What stands behind the front cannot be read: it is missing, it does not belong there, or it is
a name that is not known. -/
inductive Refused (known : String → Prop) (scope : Option String) (front : List Node) :
    List Node → CompileError → Prop
  | ended :
      Refused known scope front []
        (.malformedType (if AwaitsName front then .endedBeforeName else .endedBeforeType))
  | misplaced {node : Node} {rest : List Node} (forbidden : ¬ Allows front node) :
      Refused known scope front (node :: rest)
        (.malformedType (if AwaitsName front then .nameExpected node.kind
          else .unexpected node.kind node.text))
  | unknown {name : Node} {rest : List Node} (allowed : Allows front name)
      (isName : name.kind = .token) (unknown : ¬ known name.text) :
      Refused known scope front (name :: rest) (.typeNotFound name.text scope)

/-- From left to right the nodes are read up to a place where they are refused with the error. -/
def StuckWith (known : String → Prop) (scope : Option String) (tokens : List Node)
    (error : CompileError) : Prop :=
  ∃ front behind, tokens = front ++ behind ∧ ReadSoFar known front ∧
    Refused known scope front behind error

section Fronts

variable {expression : TypeExpression} {front : List Node}

/-- What is complete cannot be gone on with. -/
theorem Spells.not_incomplete (spelled : Spells expression front) (more : List Node) :
    ¬ Incomplete (front ++ more) := by
  intro incomplete
  obtain ⟨next, longer, tail, spelled'⟩ := incomplete
  have same : front ++ (more ++ next :: tail) = (front ++ more ++ next :: tail) ++ [] := by simp
  obtain ⟨_, _, rest⟩ := spelled.unique spelled' same
  simp at rest

/-- Whatever an incomplete front goes on with is allowed there. -/
theorem Incomplete.allows {next : Node} {more : List Node}
    (incomplete : Incomplete (front ++ next :: more)) : Allows front next := by
  obtain ⟨last, expression, tail, spelled⟩ := incomplete
  exact ⟨expression, more ++ last :: tail, by simpa using spelled⟩

/-- To begin with, the expression is incomplete. -/
theorem incomplete_nil : Incomplete [] :=
  ⟨_, .name "", [token ""], spells_spelling (.name "")⟩

/-- No expression is spelled by nothing. -/
theorem Spells.ne_nil (spelled : Spells expression front) : front ≠ [] := by
  cases spelled <;> simp

/-- Behind the marker of a name stands the name and nothing else. -/
theorem Spells.of_name {marker : Node} {behind : List Node}
    (spelled : Spells expression (marker :: behind)) (isMarker : marker.kind = .typePrimitive) :
    ∃ name, behind = [name] ∧ name.kind = .token := by
  cases spelled with
  | name _ isToken => exact ⟨_, rfl, isToken⟩
  | list isList => simp [isMarker] at isList
  | set isSet => simp [isMarker] at isSet
  | map isMap => simp [isMarker] at isMap

/-- An expression ends with a name. -/
theorem Spells.not_awaitsName (spelled : Spells expression front) : ¬ AwaitsName front := by
  induction spelled with
  | name _ isToken => simp [AwaitsName, isToken]
  | list _ inner ih | set _ inner ih =>
    rwa [AwaitsName, List.getLast?_cons_of_ne_nil inner.ne_nil]
  | map _ key value _ ih =>
    rw [AwaitsName, List.getLast?_cons_of_ne_nil (by simp [key.ne_nil]),
      List.getLast?_append_of_ne_nil _ value.ne_nil]
    exact ih

/-- If an expression denotes a type, all names that are spelled denote one. -/
theorem Denotes.names {named : String → SchemaType → Prop} {type : SchemaType}
    (denotes : Denotes named expression type) (spelled : Spells expression front) :
    ∀ node ∈ front, node.kind = .token → ∃ type, named node.text type := by
  induction spelled generalizing type with
  | name isMarker _ =>
    cases denotes with
    | name found => simpa [isMarker] using fun _ => ⟨type, found⟩
  | list isMarker _ ih =>
    cases denotes with
    | list inner => simpa [isMarker] using ih inner
  | set isMarker _ ih =>
    cases denotes with
    | set inner => simpa [isMarker] using ih inner
  | map isMarker _ _ keyIh valueIh =>
    cases denotes with
    | map atKey atValue =>
      rw [List.forall_mem_cons, List.forall_mem_append]
      exact ⟨by simp [isMarker], keyIh atKey, valueIh atValue⟩

end Fronts

section Stuck

variable {known : String → Prop} {scope : Option String} {front behind tokens : List Node}
  {error error' : CompileError}

/-- Where the nodes are refused, no longer front can be read. -/
theorem Refused.eq_nil_of_readSoFar (refused : Refused known scope front behind error)
    {more rest : List Node} (split : behind = more ++ rest)
    (further : ReadSoFar known (front ++ more)) : more = [] := by
  cases more with
  | nil => rfl
  | cons next more =>
    cases refused with
    | ended => simp at split
    | misplaced forbidden =>
      obtain ⟨rfl, _⟩ := List.cons.inj split
      exact absurd further.incomplete.allows forbidden
    | unknown _ isName unknown =>
      obtain ⟨rfl, _⟩ := List.cons.inj split
      exact absurd (further.names _ (by simp) isName) unknown

/-- A sequence is refused for one reason at most. -/
theorem Refused.unique (refused : Refused known scope front behind error)
    (refused' : Refused known scope front behind error') : error = error' := by
  cases refused with
  | ended =>
    cases refused' with
    | ended => rfl
  | misplaced forbidden =>
    cases refused' with
    | misplaced => rfl
    | unknown allowed => exact absurd allowed forbidden
  | unknown allowed =>
    cases refused' with
    | misplaced forbidden => exact absurd allowed forbidden
    | unknown => rfl

/-- There is one place at which a reading gets stuck, and one fault. -/
theorem StuckWith.unique (stuck : StuckWith known scope tokens error)
    (stuck' : StuckWith known scope tokens error') : error = error' := by
  obtain ⟨front, behind, rfl, read, refused⟩ := stuck
  obtain ⟨front', behind', same, read', refused'⟩ := stuck'
  cases List.append_eq_append_iff.mp same with
  | inl longer =>
    obtain ⟨more, rfl, rest⟩ := longer
    obtain rfl := refused.eq_nil_of_readSoFar rest read'
    rw [List.append_nil] at refused'
    obtain rfl := rest
    exact refused.unique refused'
  | inr longer =>
    obtain ⟨more, rfl, rest⟩ := longer
    obtain rfl := refused'.eq_nil_of_readSoFar rest read
    rw [List.append_nil] at refused
    obtain rfl := rest
    exact refused.unique refused'

/-- What gets stuck does not begin with an expression of known names. -/
theorem StuckWith.not_spells (stuck : StuckWith known scope tokens error)
    {expression : TypeExpression} {complete rest : List Node} (split : tokens = complete ++ rest)
    (spelled : Spells expression complete)
    (names : ∀ node ∈ complete, node.kind = .token → known node.text) : False := by
  obtain ⟨front, behind, rfl, read, refused⟩ := stuck
  cases List.append_eq_append_iff.mp split with
  | inl longer =>
    obtain ⟨more, rfl, rfl⟩ := longer
    cases more with
    | nil =>
      rw [List.append_nil] at spelled
      exact spelled.not_incomplete [] (by simpa using read.incomplete)
    | cons next more =>
      cases refused with
      | misplaced forbidden => exact forbidden ⟨expression, more, spelled⟩
      | unknown _ isName unknown => exact unknown (names _ (by simp) isName)
  | inr longer =>
    obtain ⟨more, rfl, _⟩ := longer
    exact spelled.not_incomplete more read.incomplete

/-- Nodes lead to a part of an expression if behind them that part is read as by itself. -/
structure LeadsTo (known : String → Prop) (lead : List Node) : Prop where
  allows : ∀ front next, Incomplete front → (Allows (lead ++ front) next ↔ Allows front next)
  names : ∀ node ∈ lead, node.kind = .token → known node.text
  marker : ¬ AwaitsName lead

/-- A part of an expression that gets stuck does so behind what leads to it. -/
theorem StuckWith.prepend (stuck : StuckWith known scope tokens error) {lead : List Node}
    (leads : LeadsTo known lead) : StuckWith known scope (lead ++ tokens) error := by
  obtain ⟨front, rest, rfl, read, refused⟩ := stuck
  refine ⟨lead ++ front, rest, (List.append_assoc _ _ _).symm, ⟨?_, ?_⟩, ?_⟩
  · obtain ⟨next, allowed⟩ := read.incomplete
    exact ⟨next, (leads.allows front next read.incomplete).mpr allowed⟩
  · exact List.forall_mem_append.mpr ⟨leads.names, read.names⟩
  · have awaits : AwaitsName (lead ++ front) ↔ AwaitsName front := by
      cases front with
      | nil =>
        rw [List.append_nil]
        exact iff_of_false leads.marker (by simp [AwaitsName])
      | cons node more =>
        rw [AwaitsName, AwaitsName, List.getLast?_append_of_ne_nil _ (List.cons_ne_nil _ _)]
    cases refused with
    | ended =>
      simp only [← awaits]
      exact .ended
    | misplaced forbidden =>
      simp only [← awaits]
      exact .misplaced fun allowed => forbidden ((leads.allows _ _ read.incomplete).mp allowed)
    | unknown allowed isName unknown =>
      exact .unknown ((leads.allows _ _ read.incomplete).mpr allowed) isName unknown

/-- The marker of a list or a set leads to its element. -/
theorem leadsTo_element {marker : Node}
    (isMarker : marker.kind = .typeList ∨ marker.kind = .typeSet) : LeadsTo known [marker] := by
  refine ⟨fun front next _ => ⟨fun allowed => ?_, fun allowed => ?_⟩, ?_, ?_⟩
  · obtain ⟨expression, tail, spelled⟩ := allowed
    rw [List.singleton_append, List.cons_append] at spelled
    generalize inner : front ++ next :: tail = behind at spelled
    cases spelled with
    | name isName => simp [isName] at isMarker
    | list _ element | set _ element => exact ⟨_, tail, inner ▸ element⟩
    | map isMap => simp [isMap] at isMarker
  · obtain ⟨expression, tail, spelled⟩ := allowed
    cases isMarker with
    | inl isList => exact ⟨_, tail, .list isList spelled⟩
    | inr isSet => exact ⟨_, tail, .set isSet spelled⟩
  · cases isMarker with
    | inl isList => simp [isList]
    | inr isSet => simp [isSet]
  · cases isMarker with
    | inl isList => simp [AwaitsName, isList]
    | inr isSet => simp [AwaitsName, isSet]

/-- The marker of a map leads to its key. -/
theorem leadsTo_key {marker : Node} (isMarker : marker.kind = .typeMap) :
    LeadsTo known [marker] := by
  refine ⟨fun front next incomplete => ⟨fun allowed => ?_, fun allowed => ?_⟩, by simp [isMarker],
    by simp [AwaitsName, isMarker]⟩
  · obtain ⟨expression, tail, spelled⟩ := allowed
    rw [List.singleton_append, List.cons_append] at spelled
    generalize inner : front ++ next :: tail = behind at spelled
    cases spelled with
    | name isName => simp [isName] at isMarker
    | list isList => simp [isList] at isMarker
    | set isSet => simp [isSet] at isMarker
    | @map _ _ _ keyNodes _ _ key _ =>
      -- The key reaches beyond the front, as the front is not complete.
      cases List.append_eq_append_iff.mp inner with
      | inl longer =>
        obtain ⟨more, rfl, rest⟩ := longer
        cases more with
        | nil =>
          rw [List.append_nil] at key
          exact absurd (by simpa using incomplete) (key.not_incomplete [])
        | cons first more =>
          obtain ⟨rfl, _⟩ := List.cons.inj rest
          exact ⟨_, more, key⟩
      | inr longer =>
        obtain ⟨more, rfl, _⟩ := longer
        exact absurd incomplete (key.not_incomplete more)
  · obtain ⟨expression, tail, spelled⟩ := allowed
    refine ⟨.map expression (.name ""), tail ++ (TypeExpression.name "").spelling, ?_⟩
    have both := Spells.map isMarker spelled (spells_spelling (.name ""))
    simpa using both

/-- The marker of a map together with its key leads to its value. -/
theorem leadsTo_value {marker : Node} (isMarker : marker.kind = .typeMap)
    {key : TypeExpression} {keyNodes : List Node} (spelledKey : Spells key keyNodes)
    (names : ∀ node ∈ keyNodes, node.kind = .token → known node.text) :
    LeadsTo known (marker :: keyNodes) := by
  refine ⟨fun front next _ => ⟨fun allowed => ?_, fun allowed => ?_⟩, ?_, ?_⟩
  · obtain ⟨expression, tail, spelled⟩ := allowed
    rw [List.cons_append, List.cons_append, List.append_assoc] at spelled
    generalize inner : keyNodes ++ (front ++ next :: tail) = behind at spelled
    cases spelled with
    | name isName => simp [isName] at isMarker
    | list isList => simp [isList] at isMarker
    | set isSet => simp [isSet] at isMarker
    | map _ key' value =>
      obtain ⟨_, _, rfl⟩ := spelledKey.unique key' inner
      exact ⟨_, tail, value⟩
  · obtain ⟨expression, tail, spelled⟩ := allowed
    exact ⟨_, tail, by simpa using Spells.map isMarker spelledKey spelled⟩
  · exact List.forall_mem_cons.mpr ⟨by simp [isMarker], names⟩
  · rw [AwaitsName, List.getLast?_cons_of_ne_nil spelledKey.ne_nil]
    exact spelledKey.not_awaitsName

end Stuck

end TypeExpression

end SchemaGraph
