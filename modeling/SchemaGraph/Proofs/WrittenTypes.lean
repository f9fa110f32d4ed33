import SchemaGraph.Node.TypeExpression
import SchemaGraph.Proofs.ClosedGraph
import SchemaGraph.Proofs.Coherence
import SchemaGraph.Proofs.ResolvedTypes
import SchemaGraph.Proofs.TypeScan

/-!
# Types are written and read back

A type of a registry is written with the names of what it refers to. As long as these names have no
delimiters in them, the written type is cut into the nodes that spell it and is resolved to the same
type from the top level. A name may be that of a container: it is written in front of a closing
bracket, of a comma or of nothing, and only in front of an opening bracket would it be a marker.
-/

namespace SchemaGraph

open Node Registry TypeExpression

/-- The name can be written in a type: it is not empty and has neither brackets nor commas nor
blanks. -/
def Name.Writable (name : String) : Prop :=
  name ≠ "" ∧ ∀ c ∈ name.toList, c ≠ '<' ∧ c ≠ '>' ∧ c ≠ ',' ∧ Text.isBlank c = false

-- Only the characters of the name are looked at, not all that there are.
instance (name : String) : Decidable (Name.Writable name) :=
  @instDecidableAnd _ _ inferInstance (List.decidableBAll _ _)

/-- A writable name has nothing in it that delimits names. -/
theorem Name.Writable.delimitsName {name : String} (writable : Name.Writable name) :
    ∀ c ∈ name.toList, delimitsName c = false := by
  intro c listed
  obtain ⟨notOpening, notClosing, notComma, notBlank⟩ := writable.2 c listed
  simp [Node.delimitsName, notOpening, notClosing, notComma, notBlank]

namespace Node

/-- The text ends a name that is no container: it is empty, or goes on with a closing bracket or a
comma. -/
def EndsName (text : List Char) : Prop :=
  ∀ c ∈ text.head?, c = '>' ∨ c = ','

/-- What ends a name begins with a delimiter. -/
theorem EndsName.delimitsName {text : List Char} (ends : EndsName text) :
    ∀ c ∈ text.head?, delimitsName c = true := by
  intro c first
  cases ends c first with
  | inl closing => simp [Node.delimitsName, closing]
  | inr comma => simp [Node.delimitsName, comma]

/-- A name is cut off in front of the next delimiter. -/
theorem expressionNodes_name {name : String} (writable : Name.Writable name) {text : List Char}
    (delimited : ∀ c ∈ text.head?, delimitsName c = true) :
    expressionNodes (name.toList ++ text) = nameNodes name text ++ expressionNodes text := by
  have nonempty : name.toList ≠ [] := fun empty => writable.1 (String.toList_eq_nil_iff.mp empty)
  rw [expressionNodes_run nonempty writable.delimitsName delimited, String.ofList_toList]

/-- A name that a closing bracket, a comma or nothing follows is no container. -/
theorem nameNodes_of_endsName {text : List Char} (ends : EndsName text) (name : String) :
    nameNodes name text = [make .typePrimitive "type" [], token name] := by
  have notOpening : opensBracket text = false := by
    cases text with
    | nil => rfl
    | cons c rest =>
      cases ends c rfl with
      | inl closing => subst closing; rfl
      | inr comma => subst comma; rfl
  rw [nameNodes, notOpening]
  cases containerMarker? name <;> rfl

/-- In front of what ends a name the text is cut into the nodes. -/
def CutInto (text : String) (nodes : List Node) : Prop :=
  ∀ behind, EndsName behind →
    expressionNodes (text.toList ++ behind) = nodes ++ expressionNodes behind

/-- A writable name is cut into its own spelling. -/
theorem cutInto_name {name : String} (writable : Name.Writable name) :
    CutInto name (TypeExpression.name name).spelling := by
  intro behind ends
  rw [expressionNodes_name writable ends.delimitsName, nameNodes_of_endsName ends]
  rfl

/-- A container keyword in front of brackets is a marker in front of what stands between them. -/
theorem CutInto.enclosed {text : String} {nodes : List Node} (cut : CutInto text nodes)
    (keyword : String) {kind : NodeKind} (marks : containerMarker? keyword = some kind)
    (writable : Name.Writable keyword) :
    CutInto (keyword ++ "<" ++ text ++ ">") (make kind keyword [] :: nodes) := by
  intro behind ends
  have marker : nameNodes keyword ('<' :: (text.toList ++ '>' :: behind)) =
      [make kind keyword []] := by
    rw [nameNodes, marks]
    rfl
  have chars : (keyword ++ "<" ++ text ++ ">").toList ++ behind =
      keyword.toList ++ '<' :: (text.toList ++ '>' :: behind) := by
    simp [String.toList_append]
  rw [chars, expressionNodes_name writable (by simp [delimitsName]), marker,
    expressionNodes_delimiter (by rfl), cut _ (by simp [EndsName]),
    expressionNodes_delimiter (by rfl)]
  rfl

/-- A comma and a blank leave no node between two texts. -/
theorem CutInto.pair {first second : String} {front back : List Node}
    (cutFirst : CutInto first front) (cutSecond : CutInto second back) :
    CutInto (first ++ ", " ++ second) (front ++ back) := by
  intro behind ends
  have chars : (first ++ ", " ++ second).toList ++ behind =
      first.toList ++ ',' :: ' ' :: (second.toList ++ behind) := by
    simp [String.toList_append]
  rw [chars, cutFirst _ (by simp [EndsName]), expressionNodes_delimiter (by rfl),
    expressionNodes_delimiter (by rfl), cutSecond behind ends, List.append_assoc]

end Node

namespace Registry

variable {registry : Registry}

/-- From the top level a qualified name refers to the declaration that has it. -/
theorem refersTo_name (distinct : registry.names.Nodup) {id : TypeId} {declaration : Declaration}
    (found : registry.declarations[id]? = some declaration) {type : SchemaType}
    (typed : registry.typeOf id = .ok type) : registry.RefersTo none declaration.name type := by
  refine ⟨id, ?_, typed⟩
  rw [resolve, scopeName, candidates, List.findSome?_cons, find?_of_getElem? distinct found]

/-- The blob type is written with the name of a blob, if there is one. -/
theorem exists_blobName {id : TypeId} {name : String}
    (registered : registry.declarations[id]? = some (.blob name)) :
    ∃ (first : TypeId) (declaration : Declaration),
      registry.declarations[first]? = some declaration ∧
        registry.typeOf first = .ok .blob ∧ registry.blobName = declaration.name := by
  have any : (registry.declarations.find? (·.kind == .blob)).isSome := by
    rw [List.find?_isSome]
    exact ⟨_, List.mem_of_getElem? registered, rfl⟩
  obtain ⟨declaration, found⟩ := Option.isSome_iff_exists.mp any
  obtain ⟨first, atFirst⟩ := List.mem_iff_getElem?.mp (List.mem_of_find?_eq_some found)
  have isBlob := List.find?_some found
  refine ⟨first, declaration, atFirst, ?_, by rw [blobName, found]⟩
  rw [typeOf, get_eq_ok_iff.mpr atFirst]
  cases declaration <;> simp_all [Declaration.kind, Except.map]

/-- A type that refers to what is registered is written as text that is cut into the spelling of an
expression of the type. -/
theorem exists_written (distinct : registry.names.Nodup)
    (writable : ∀ declaration ∈ registry.declarations, Name.Writable declaration.name)
    {type : SchemaType} (closed : type.ClosedIn registry) :
    ∃ text expression, registry.describe type = .ok text ∧
      Denotes (registry.RefersTo none) expression type ∧ CutInto text expression.spelling := by
  have named {id : TypeId} {declaration : Declaration} {type : SchemaType}
      (found : registry.declarations[id]? = some declaration)
      (typed : registry.typeOf id = .ok type) :
      Denotes (registry.RefersTo none) (.name declaration.name) type ∧
        CutInto declaration.name (TypeExpression.name declaration.name).spelling :=
    ⟨.name (refersTo_name distinct found typed),
      cutInto_name (writable declaration (List.mem_of_getElem? found))⟩
  induction closed with
  | primitive registered =>
    exact ⟨_, _, rfl, named registered (by rw [typeOf, get_eq_ok_iff.mpr registered]; rfl)⟩
  | blob registered =>
    obtain ⟨first, declaration, atFirst, typed, isName⟩ := exists_blobName registered
    exact ⟨_, _, by rw [describe, isName], named atFirst typed⟩
  | record registered | enumeration registered =>
    exact ⟨_, _, nameOf_eq_ok_iff.mpr ⟨_, registered, rfl⟩,
      named registered (by rw [typeOf, get_eq_ok_iff.mpr registered]; rfl)⟩
  | list _ ih =>
    obtain ⟨text, expression, described, denotes, cut⟩ := ih
    exact ⟨_, .list expression, by rw [describe, described]; rfl, .list denotes,
      cut.enclosed "list" rfl (by decide)⟩
  | set _ ih =>
    obtain ⟨text, expression, described, denotes, cut⟩ := ih
    exact ⟨_, .set expression, by rw [describe, described]; rfl, .set denotes,
      cut.enclosed "set" rfl (by decide)⟩
  | map _ _ keyIh valueIh =>
    obtain ⟨keyText, key, describedKey, denotesKey, cutKey⟩ := keyIh
    obtain ⟨valueText, value, describedValue, denotesValue, cutValue⟩ := valueIh
    refine ⟨_, .map key value, by rw [describe, describedKey, describedValue],
      .map denotesKey denotesValue, ?_⟩
    have enclosed := (cutKey.pair cutValue).enclosed "map" rfl (by decide)
    simpa [String.append_assoc, spelling] using enclosed

/-- A type that refers to what is registered is written out, and what is written is resolved to the
same type from the top level and leaves nothing behind, provided that names are distinct and can be
written. A type of the name of a container is no exception. -/
theorem resolveType_describe {registry : Registry} (distinct : registry.names.Nodup)
    (writable : ∀ declaration ∈ registry.declarations, Name.Writable declaration.name)
    {type : SchemaType} (closed : type.ClosedIn registry) :
    ∃ text, registry.describe type = .ok text ∧
      registry.resolveType none (ofTypeExpression text) = .ok (type, []) := by
  obtain ⟨text, expression, described, denotes, cut⟩ := exists_written distinct writable closed
  have nodes : ofTypeExpression text = expression.spelling ++ [] := by
    have all := cut [] (by simp [EndsName])
    rwa [List.append_nil, expressionNodes] at all
  refine ⟨text, described, ?_⟩
  rw [nodes]
  exact resolveType_eq_ok_iff_spells.mpr ⟨_, _, rfl, spells_spelling expression,
    denotes.mono fun _ _ refers => typeNamed_eq_ok_iff.mpr refers⟩

/-- Types that have the names of containers, one of them nested in another. -/
def containerTypes : Registry :=
  performAll ⟨[.primitive "set", .blob "list"]⟩
    [.registerRecord none "map", .registerEnumeration (some 2) "list"]

/-- Types named like containers are written and read back, nested in containers. -/
theorem resolveType_describe_containerTypes :
    containerTypes.Reachable ∧
      ∃ text, containerTypes.describe
          (.map (.primitive "set") (.list (.map (.record 2) (.set (.enumeration 3))))) = .ok text ∧
        text = "map<set, list<map<map, set<map.list>>>>" ∧
        containerTypes.resolveType none (ofTypeExpression text) =
          .ok (.map (.primitive "set") (.list (.map (.record 2) (.set (.enumeration 3)))), []) := by
  have registered : withBuiltins ["set"] "list" = .ok ⟨[.primitive "set", .blob "list"]⟩ := by
    decide
  have reachable : containerTypes.Reachable := (Reachable.builtins registered).performAll _
  have set : containerTypes.declarations[0]? = some (.primitive "set") := rfl
  have closed : SchemaType.ClosedIn containerTypes
      (.map (.primitive "set") (.list (.map (.record 2) (.set (.enumeration 3))))) :=
    .map (.primitive set) (.list (.map (.record rfl) (.set (.enumeration rfl))))
  obtain ⟨text, described, resolved⟩ :=
    resolveType_describe reachable.coherent.distinct (by decide) closed
  have isText : containerTypes.describe
      (.map (.primitive "set") (.list (.map (.record 2) (.set (.enumeration 3))))) =
        .ok "map<set, list<map<map, set<map.list>>>>" := by decide
  exact ⟨reachable, text, described, Except.ok.inj (described.symm.trans isText), resolved⟩

end Registry

end SchemaGraph
