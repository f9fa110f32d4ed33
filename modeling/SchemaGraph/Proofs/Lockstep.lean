import SchemaGraph.Proofs.RunReport
import SchemaGraph.Proofs.ThinnedTrees

/-!
# Two compiles in step

Two compiles of the same builtin types are compared here, one of a schema and one of a thinned
schema, under settings whose switches may differ. The first passes do the same. The second passes go
on in step as long as their registries are related declaration by declaration and have met the same
shells: what is looked up and what is refused is read off the shells and the names in the trees, so
both passes meet the same fault or none, and every change of the one is matched by a change of the
other. Which relation is kept is a parameter with a law for every change.
-/

namespace SchemaGraph

open Node Registry

/-- Two computations agree: both fail with the same error, or both give related values. -/
inductive Agree {ε α β : Type} (related : α → β → Prop) : Except ε α → Except ε β → Prop
  | ok {value : α} {value' : β} (values : related value value') :
      Agree related (.ok value) (.ok value')
  | error (error : ε) : Agree related (.error error) (.error error)

/-- If one of two computations that agree fails, the other fails with the same error. -/
theorem Agree.eq_error {ε α β : Type} {related : α → β → Prop} {error : ε} {result' : Except ε β}
    (agree : Agree related (.error error) result') : result' = .error error := by
  cases agree
  rfl

/-- If one of them succeeds, so does the other, and the values are related. -/
theorem Agree.exists_ok {ε α β : Type} {related : α → β → Prop} {value : α}
    {result' : Except ε β} (agree : Agree related (.ok value) result') :
    ∃ value', result' = .ok value' ∧ related value value' := by
  cases agree with
  | ok values => exact ⟨_, rfl, values⟩

/-- Computations that agree go on in agreement. -/
theorem Agree.bind {ε α β γ δ : Type} {related : α → β → Prop} {further : γ → δ → Prop}
    {result : Except ε α} {result' : Except ε β} {next : α → Except ε γ} {next' : β → Except ε δ}
    (agree : Agree related result result')
    (goOn : ∀ value value', related value value' → Agree further (next value) (next' value')) :
    Agree further (result.bind next) (result'.bind next') := by
  cases agree with
  | ok values => exact goOn _ _ values
  | error error => exact .error error

/-- Agreement is kept when the values are mapped alike. -/
theorem Agree.map {ε α β γ δ : Type} {related : α → β → Prop} {further : γ → δ → Prop}
    {result : Except ε α} {result' : Except ε β} {f : α → γ} {f' : β → δ}
    (agree : Agree related result result')
    (maps : ∀ value value', related value value' → further (f value) (f' value')) :
    Agree further (result.map f) (result'.map f') := by
  cases agree with
  | ok values => exact .ok (maps _ _ values)
  | error error => exact .error error

/-- Agreement is kept when the errors are worded anew. -/
theorem Agree.mapError {ε ζ α β : Type} {related : α → β → Prop} {result : Except ε α}
    {result' : Except ε β} (agree : Agree related result result') (f : ε → ζ) :
    Agree related (result.mapError f) (result'.mapError f) := by
  cases agree with
  | ok values => exact .ok values
  | error error => exact .error _

/-- The property with another switch for its storage key. -/
def Property.withKeys (camelCaseKeys : Bool) (property : Property) : Property :=
  { property with camelCaseKeys }

/-- A relation of declarations that two second passes keep up, the second of which works on thinned
trees: shells are related to themselves, and every change of the one pass is matched by the same
change in the other. A comment may be set in the one pass alone if its node is dropped for the
other. -/
structure InStep (droppable : Node → Prop) (camelCaseKeys camelCaseKeys' : Bool)
    (alike : Declaration → Declaration → Prop) : Prop where
  shell : ∀ declaration, declaration.bare = declaration → alike declaration declaration
  bare : ∀ declaration declaration', alike declaration declaration' →
    declaration'.bare = declaration.bare
  gain : ∀ record record' property identity, property.camelCaseKeys = camelCaseKeys →
    alike (.record record) (.record record') →
      alike (.record (record.gain property identity))
        (.record (record'.gain (property.withKeys camelCaseKeys') identity))
  recordComment : ∀ record record' comment, alike (.record record) (.record record') →
    alike (.record (record.setComment comment)) (.record (record'.setComment comment))
  value : ∀ enumeration enumeration' value,
    alike (.enumeration enumeration) (.enumeration enumeration') →
      alike (.enumeration (enumeration.addValue value)) (.enumeration (enumeration'.addValue value))
  enumerationComment : ∀ enumeration enumeration' comment,
    alike (.enumeration enumeration) (.enumeration enumeration') →
      alike (.enumeration (enumeration.setComment comment))
        (.enumeration (enumeration'.setComment comment))
  inert : ∀ node, droppable node → node.kind = .comment ∧ Barren [node]
  droppedFromRecord : ∀ node, droppable node → ∀ record record',
    alike (.record record) (.record record') →
      alike (.record (record.setComment node.commentText)) (.record record')
  droppedFromEnumeration : ∀ node, droppable node → ∀ enumeration enumeration',
    alike (.enumeration enumeration) (.enumeration enumeration') →
      alike (.enumeration (enumeration.setComment node.commentText)) (.enumeration enumeration')

namespace Declaration

/-- A declaration of the kind of records is a record. -/
theorem exists_record {declaration : Declaration} (kind : declaration.kind = .record) :
    ∃ type, declaration = record type := by
  cases declaration <;> simp_all [Declaration.kind]

/-- A declaration of the kind of enumerations is an enumeration. -/
theorem exists_enumeration {declaration : Declaration} (kind : declaration.kind = .enumeration) :
    ∃ type, declaration = enumeration type := by
  cases declaration <;> simp_all [Declaration.kind]

/-- A change of records leaves other declarations alone. -/
theorem onRecord_of_kind {declaration : Declaration} (other : declaration.kind ≠ .record)
    (change : RecordType → RecordType) : declaration.onRecord change = declaration := by
  cases declaration <;> simp_all [Declaration.kind, Declaration.onRecord]

/-- A change of enumerations leaves other declarations alone. -/
theorem onEnumeration_of_kind {declaration : Declaration}
    (other : declaration.kind ≠ .enumeration) (change : EnumType → EnumType) :
    declaration.onEnumeration change = declaration := by
  cases declaration <;> simp_all [Declaration.kind, Declaration.onEnumeration]

end Declaration

namespace Registry

/-- To change a record to itself changes nothing. -/
theorem onRecord_self (registry : Registry) (id : TypeId) :
    registry.onRecord id (fun record => record) = registry := by
  have same : Declaration.onRecord (fun record => record) = fun declaration => declaration := by
    funext declaration
    cases declaration <;> rfl
  rw [onRecord, same]
  exact congrArg Registry.mk (List.modify_id _ _)

/-- To change an enumeration to itself changes nothing. -/
theorem onEnumeration_self (registry : Registry) (id : TypeId) :
    registry.onEnumeration id (fun enumeration => enumeration) = registry := by
  have same : Declaration.onEnumeration (fun enumeration => enumeration) =
      fun declaration => declaration := by
    funext declaration
    cases declaration <;> rfl
  rw [onEnumeration, same]
  exact congrArg Registry.mk (List.modify_id _ _)

/-- The declarations of the two registries are related one by one. -/
def Alike (alike : Declaration → Declaration → Prop) (registry registry' : Registry) : Prop :=
  List.Forall₂ alike registry.declarations registry'.declarations

/-- What is the same of related declarations is the same of the registries as a whole. -/
theorem Alike.map_eq {α : Type} {f g : Declaration → α} {registry registry' : Registry}
    (like : Alike (fun declaration declaration' => f declaration' = g declaration)
      registry registry') :
    registry'.declarations.map f = registry.declarations.map g := by
  rw [← List.forall₂_eq_eq_eq, List.forall₂_map_left_iff, List.forall₂_map_right_iff]
  exact like.flip

end Registry

/-- The registries are related, and the same shells have been met. -/
structure Contents.Alike (alike : Declaration → Declaration → Prop)
    (contents contents' : Contents) : Prop where
  registry : Registry.Alike alike contents.registry contents'.registry
  filled : contents'.filled = contents.filled

section Shells

variable {registry registry' : Registry}

/-- Scopes of the same shells have the same names. -/
theorem scopeName_of_bare (same : registry'.bare = registry.bare) (scope : Option TypeId) :
    registry'.scopeName scope = registry.scopeName scope := by
  rw [← scopeName_bare, same, scopeName_bare]

/-- Names are qualified alike in registries of the same shells. -/
theorem qualify_of_bare (same : registry'.bare = registry.bare) (scope : Option TypeId)
    (localName : String) :
    registry'.qualify scope localName = registry.qualify scope localName := by
  rw [qualify, qualify, scopeName_of_bare same]

/-- Ids have the same names in them. -/
theorem nameOf_of_bare (same : registry'.bare = registry.bare) (id : TypeId) :
    registry'.nameOf id = registry.nameOf id := by
  rw [← nameOf_bare, same, nameOf_bare]

/-- Types are represented alike in them. -/
theorem kindFor_of_bare (same : registry'.bare = registry.bare) (type : SchemaType) :
    registry'.kindFor type = registry.kindFor type := by
  rw [← kindFor_bare, same, kindFor_bare]

/-- Whether an id is that of an enumeration is read off the shells. -/
theorem isSome_enumeration?_bare (registry : Registry) (id : TypeId) :
    (registry.bare.enumeration? id).isSome = (registry.enumeration? id).isSome := by
  rw [enumeration?, enumeration?, getElem?_bare]
  cases registry.declarations[id]? with
  | none => rfl
  | some declaration => cases declaration <;> rfl

/-- Registries of the same shells have enumerations under the same ids. -/
theorem isSome_enumeration?_of_bare (same : registry'.bare = registry.bare) (id : TypeId) :
    (registry'.enumeration? id).isSome = (registry.enumeration? id).isSome := by
  rw [← isSome_enumeration?_bare, same, isSome_enumeration?_bare]

variable {droppable : Node → Prop}

/-- A type expression is resolved to the same type, and what is left is what was left before. -/
theorem resolveType_agree (same : registry'.bare = registry.bare) (scope : Option TypeId)
    {tokens tokens' : List Node} (alike : List.Forall₂ (ThinsTo droppable) tokens tokens') :
    Agree (fun (type, rest) (type', rest') =>
        type' = type ∧ List.Forall₂ (ThinsTo droppable) rest rest')
      (registry.resolveType scope tokens) (registry'.resolveType scope tokens') := by
  induction tokens using reading_induction registry scope generalizing tokens' with
  | nil =>
    cases alike
    rw [resolveType_nil, resolveType_nil]
    exact .error _
  | cons marker tokens ih middleIh =>
    cases alike with
    | @cons _ marker' _ tokens' thins others =>
      by_cases isName : marker.kind = .typePrimitive
      · rw [resolveType_primitive registry scope isName,
          resolveType_primitive registry' scope (thins.kind.trans isName)]
        cases others with
        | nil => exact .error _
        | cons name rest =>
          simp only [name.kind, name.text, typeNamed_of_bare same]
          split
          · cases registry.typeNamed scope _ with
            | ok type => exact .ok ⟨rfl, rest⟩
            | error error => exact .error error
          · exact .error _
      by_cases isList : marker.kind = .typeList
      · rw [resolveType_list registry scope isList,
          resolveType_list registry' scope (thins.kind.trans isList)]
        exact (ih others).map fun _ _ values => ⟨congrArg _ values.1, values.2⟩
      by_cases isSet : marker.kind = .typeSet
      · rw [resolveType_set registry scope isSet,
          resolveType_set registry' scope (thins.kind.trans isSet)]
        exact (ih others).map fun _ _ values => ⟨congrArg _ values.1, values.2⟩
      by_cases isMap : marker.kind = .typeMap
      · rw [resolveType_map registry scope isMap,
          resolveType_map registry' scope (thins.kind.trans isMap)]
        have keys := ih others
        cases first : registry.resolveType scope tokens with
        | error error =>
          rw [first] at keys
          rw [keys.eq_error]
          exact .error error
        | ok result =>
          obtain ⟨key, middle⟩ := result
          rw [first] at keys
          obtain ⟨⟨key', _⟩, first', rfl, left⟩ := keys.exists_ok
          rw [first']
          exact (middleIh key' middle first left).map fun _ _ values =>
            ⟨congrArg _ values.1, values.2⟩
      · have other := thins.kind
        rw [resolveType_other registry scope isName isList isSet isMap,
          resolveType_other registry' scope (other ▸ isName) (other ▸ isList) (other ▸ isSet)
            (other ▸ isMap), thins.kind, thins.text]
        exact .error _

/-- A property is read alike, but for its switch. -/
theorem readProperty_agree (same : registry'.bare = registry.bare)
    (camelCaseKeys camelCaseKeys' : Bool) (owner : TypeId) (name : String)
    {nodes nodes' : List Node} (alike : List.Forall₂ (ThinsTo droppable) nodes nodes') :
    Agree (fun (property, identity) (property', identity') =>
        property.owner = owner ∧ property.camelCaseKeys = camelCaseKeys ∧
          property' = property.withKeys camelCaseKeys' ∧ identity' = identity)
      (registry.readProperty camelCaseKeys owner name nodes)
      (registry'.readProperty camelCaseKeys' owner name nodes') := by
  have types := resolveType_agree same (some owner) alike
  rw [readProperty, readProperty]
  generalize registry.resolveType (some owner) nodes = resolved,
    registry'.resolveType (some owner) nodes' = resolved' at types
  cases types with
  | error error => exact .error error
  | @ok result result' values =>
    obtain ⟨type, rest⟩ := result
    obtain ⟨_, rest'⟩ := result'
    obtain ⟨rfl, left⟩ := values
    simp only [read_of_forall₂ left]
    cases Extras.read rest Extras.none with
    | error error => exact .error error
    | ok extras =>
      simp only [makeProperty, kindFor_of_bare same]
      cases registry.kindFor _ with
      | error error => exact .error _
      | ok kind => exact .ok ⟨rfl, rfl, rfl, rfl⟩

end Shells

section Alike

variable {droppable : Node → Prop} {camelCaseKeys camelCaseKeys' : Bool}
  {alike : Declaration → Declaration → Prop} {registry registry' : Registry}

/-- Registries that are in step have the same shells. -/
theorem InStep.bare_eq (inStep : InStep droppable camelCaseKeys camelCaseKeys' alike)
    (related : Registry.Alike alike registry registry') : registry'.bare = registry.bare := by
  have shells : Registry.Alike (fun declaration declaration' =>
      declaration'.bare = declaration.bare) registry registry' := related.imp inStep.bare
  exact congrArg Registry.mk shells.map_eq

/-- Lists stay related when they are changed in the same place by changes that keep the relation. -/
theorem forall₂_modify {declarations declarations' : List Declaration}
    {change change' : Declaration → Declaration} (id : Nat)
    (related : List.Forall₂ alike declarations declarations')
    (keeps : ∀ declaration declaration', alike declaration declaration' →
      alike (change declaration) (change' declaration')) :
    List.Forall₂ alike (declarations.modify id change) (declarations'.modify id change') := by
  induction related generalizing id with
  | nil => simp
  | cons here behind ih =>
    cases id with
    | zero => simpa using ⟨keeps _ _ here, behind⟩
    | succ id => simpa using ⟨here, ih id⟩

namespace InStep

variable (inStep : InStep droppable camelCaseKeys camelCaseKeys' alike)

include inStep

/-- Related declarations are of the same kind. -/
theorem kind_eq {declaration declaration' : Declaration} (here : alike declaration declaration') :
    declaration'.kind = declaration.kind := by
  rw [← Declaration.kind_bare, inStep.bare _ _ here, Declaration.kind_bare]

/-- A change of a record that keeps records related keeps the registries related. -/
theorem onRecord (related : Registry.Alike alike registry registry') (id : TypeId)
    {change change' : RecordType → RecordType}
    (keeps : ∀ record record', alike (.record record) (.record record') →
      alike (.record (change record)) (.record (change' record'))) :
    Registry.Alike alike (registry.onRecord id change) (registry'.onRecord id change') := by
  refine forall₂_modify id related fun declaration declaration' here => ?_
  have kind := inStep.kind_eq here
  cases declaration with
  | record record =>
    obtain ⟨record', rfl⟩ := Declaration.exists_record kind
    exact keeps _ _ here
  | _ =>
    rw [Declaration.onRecord_of_kind (kind.trans_ne (by simp [Declaration.kind]))]
    exact here

/-- A change of an enumeration that keeps enumerations related keeps the registries related. -/
theorem onEnumeration (related : Registry.Alike alike registry registry') (id : TypeId)
    {change change' : EnumType → EnumType}
    (keeps : ∀ enumeration enumeration',
      alike (.enumeration enumeration) (.enumeration enumeration') →
        alike (.enumeration (change enumeration)) (.enumeration (change' enumeration'))) :
    Registry.Alike alike (registry.onEnumeration id change)
      (registry'.onEnumeration id change') := by
  refine forall₂_modify id related fun declaration declaration' here => ?_
  have kind := inStep.kind_eq here
  cases declaration with
  | enumeration type =>
    obtain ⟨type', rfl⟩ := Declaration.exists_enumeration kind
    exact keeps _ _ here
  | _ =>
    rw [Declaration.onEnumeration_of_kind (kind.trans_ne (by simp [Declaration.kind]))]
    exact here

/-- The values of an enumeration are added alike, and a dropped comment is made up for. -/
theorem fillValues (related : Registry.Alike alike registry registry') (id : TypeId)
    {inside free : Bool} {members members' : List Node}
    (thinned : Thinned droppable inside free members members') :
    Registry.Alike alike (registry.fillValues id members) (registry'.fillValues id members') := by
  induction thinned generalizing registry registry' with
  | nil => exact related
  | @kept _ _ node node' _ _ kind text position below _ _ behind =>
    have thins : node.ThinsTo droppable node' := ⟨kind, text, position, below⟩
    rw [Registry.fillValues, Registry.fillValues]
    refine behind (inStep.onEnumeration related id fun type type' here => ?_)
    rw [kind]
    by_cases comment : node.kind = .comment
    · rw [if_pos comment, if_pos comment, thins.commentText (by simp [Node.declares, comment])]
      exact inStep.enumerationComment _ _ _ here
    · rw [if_neg comment, if_neg comment, text]
      exact inStep.value _ _ _ here
  | @dropped node _ _ fit _ behind =>
    rw [Registry.fillValues, ← registry'.onEnumeration_self id]
    refine behind (inStep.onEnumeration related id fun type type' here => ?_)
    rw [if_pos (inStep.inert node fit).1]
    exact inStep.droppedFromEnumeration node fit _ _ here

/-- A property is added in both passes, or refused in both for the same reason. -/
theorem fillProperty (related : Registry.Alike alike registry registry') (owner : TypeId)
    {node node' : Node} (thins : node.ThinsTo droppable node') (kind : node.kind = .property) :
    (∃ grown grown', Registry.Alike alike grown grown' ∧
        (Change.fillProperty camelCaseKeys owner node).run registry = .ok () grown ∧
        (Change.fillProperty camelCaseKeys' owner node').run registry' = .ok () grown') ∨
      ∃ error,
        (Change.fillProperty camelCaseKeys owner node).run registry = .error error registry ∧
        (Change.fillProperty camelCaseKeys' owner node').run registry' =
          .error error registry' := by
  have same := inStep.bare_eq related
  have behind := thins.forall₂_children (by simp [Node.declares, kind])
  cases children : node.children with
  | nil =>
    rw [children, List.forall₂_nil_left_iff] at behind
    refine .inr ⟨.atNode node .propertyWithoutName, Change.run_fillProperty_of_unnamed children, ?_⟩
    rw [← thins.atNode]
    exact Change.run_fillProperty_of_unnamed behind
  | cons name nodes =>
    rw [children, List.forall₂_cons_left_iff] at behind
    obtain ⟨name', nodes', first, behind, children'⟩ := behind
    have wording (error : CompileError) :
        registry'.inProperty owner name'.text error =
          registry.inProperty owner name.text error := by
      simp only [first.text, Registry.inProperty, nameOf_of_bare same]
    have properties := readProperty_agree same camelCaseKeys camelCaseKeys' owner name.text behind
    generalize read : registry.readProperty camelCaseKeys owner name.text nodes = result,
      read' : registry'.readProperty camelCaseKeys' owner name.text nodes' = result' at properties
    rw [← first.text] at read'
    cases properties with
    | error error =>
      refine .inr ⟨_, Change.run_fillProperty_of_unread children read, ?_⟩
      rw [← wording]
      exact Change.run_fillProperty_of_unread children' read'
    | @ok result result' values =>
      obtain ⟨property, _⟩ := result
      obtain ⟨_, identity⟩ := result'
      obtain ⟨_, switched, rfl, rfl⟩ := values
      by_cases record : registry.HasRecord owner
      · refine .inl ⟨_, _, ?_, Change.run_fillProperty_of_record children read record,
          Change.run_fillProperty_of_record children' read' (record.of_bare same)⟩
        exact inStep.onRecord related _ fun _ _ => inStep.gain _ _ _ _ switched
      · have record' : ¬ registry'.HasRecord owner := fun known => record (known.of_bare same.symm)
        refine .inr ⟨_, Change.run_fillProperty_of_other children read record, ?_⟩
        rw [← wording]
        exact Change.run_fillProperty_of_other children' read' record'

end InStep

end Alike

namespace Contents

variable {droppable : Node → Prop} {camelCaseKeys camelCaseKeys' : Bool}
  {alike : Declaration → Declaration → Prop} {contents contents' : Contents}

/-- A shell is claimed in both passes, or in neither and for the same reason. -/
theorem claim_agree (same : contents'.registry.bare = contents.registry.bare)
    (related : contents.Alike alike contents') (parent : Option TypeId) (kind : DeclarationKind)
    {name name' : Node} (thins : name.ThinsTo droppable name') :
    Agree (fun (id, claimed) (id', claimed') => id' = id ∧ claimed.Alike alike claimed')
      (contents.claim parent kind name) (contents'.claim parent kind name') := by
  rw [claim, claim, thins.declarationName]
  cases declarationName name with
  | error error => exact .error error
  | ok text =>
    simp only [qualify_of_bare same, lookup, find?_of_bare same, related.filled]
    cases contents.registry.qualify parent text with
    | error error => exact .error _
    | ok qualified =>
      dsimp only
      cases found : contents.registry.find? qualified with
      | none => exact .error _
      | some id =>
        obtain ⟨declaration, atId, _⟩ := name_of_find? found
        obtain ⟨declaration', atId', bare⟩ := exists_getElem?_of_bare same atId
        have sameKind : declaration'.kind = declaration.kind := by
          rw [← Declaration.kind_bare, bare, Declaration.kind_bare]
        simp only [get_eq_ok_iff.mpr atId, get_eq_ok_iff.mpr atId', sameKind]
        split
        · exact .error _
        · exact .ok ⟨rfl, related.registry, rfl⟩

/-- Contents stay related when they go on with related registries. -/
theorem Alike.withRegistry (related : contents.Alike alike contents')
    {registry registry' : Registry} (like : Registry.Alike alike registry registry') :
    (contents.withRegistry registry).Alike alike (contents'.withRegistry registry') :=
  ⟨like, related.filled⟩

/-- Why visits are stopped is why the first of them is stopped, or else why those behind are. -/
theorem visitAll_cons_cause (camelCaseKeys : Bool) (site : Site) (rest : List Site)
    (contents : Contents) :
    (visitAll camelCaseKeys (site :: rest) contents).mapError Stopped.error =
      ((visit camelCaseKeys site contents).mapError Stopped.error).bind fun visited =>
        (visitAll camelCaseKeys rest visited).mapError Stopped.error := by
  rw [visitAll]
  cases visit camelCaseKeys site contents <;> rfl

section Visits

variable (inStep : InStep droppable camelCaseKeys camelCaseKeys' alike)

include inStep

/-- An enumeration is filled in in both passes, or in neither and for the same reason. -/
theorem fillEnumeration_agree (related : contents.Alike alike contents') (parent : Option TypeId)
    {node node' : Node} (thins : node.ThinsTo droppable node') :
    Agree (Contents.Alike alike)
      ((fillEnumeration parent node contents).mapError Stopped.error)
      ((fillEnumeration parent node' contents').mapError Stopped.error) := by
  have same := inStep.bare_eq related.registry
  rw [fillEnumeration, fillEnumeration]
  obtain ⟨empty, empty'⟩ | ⟨_, _, _, _, children, children', first, behind⟩ := thins.children
  · rw [empty, empty', thins.kind, thins.atNode]
    exact .error _
  · rw [children, children']
    have claims := claim_agree same related parent .enumeration first
    dsimp only
    generalize contents.claim parent .enumeration _ = claim,
      contents'.claim parent .enumeration _ = claim' at claims
    cases claims with
    | error error => exact .error _
    | @ok result result' values =>
      obtain ⟨_, claimed⟩ := result
      obtain ⟨id, claimed'⟩ := result'
      obtain ⟨rfl, like⟩ := values
      have known := isSome_enumeration?_of_bare (inStep.bare_eq like.registry) id
      dsimp only
      cases found : claimed.registry.enumeration? id with
      | none =>
        rw [found, Option.isSome_none, Option.isSome_eq_false_iff,
          Option.isNone_iff_eq_none] at known
        rw [known, thins.atNode]
        exact .error _
      | some type =>
        rw [found, Option.isSome_some, Option.isSome_iff_exists] at known
        obtain ⟨type', found'⟩ := known
        rw [found']
        exact .ok (like.withRegistry (inStep.fillValues like.registry id behind))

/-- A site is visited in both passes, or in neither and for the same reason. -/
theorem visit_agree (related : contents.Alike alike contents') (path : List String)
    {node node' : Node} (thins : node.ThinsTo droppable node') :
    Agree (Contents.Alike alike)
      ((visit camelCaseKeys ⟨path, node⟩ contents).mapError Stopped.error)
      ((visit camelCaseKeys' ⟨path, node'⟩ contents').mapError Stopped.error) := by
  -- A stopped visit hands back its contents, which differ, so only the errors are compared.
  have same := inStep.bare_eq related.registry
  simp only [visit, thins.kind, scopeOf_of_bare same]
  cases kind : node.kind with
  | record =>
    dsimp only
    obtain ⟨empty, empty'⟩ | ⟨_, _, _, _, children, children', first, _⟩ := thins.children
    · rw [empty, empty', thins.atNode]
      exact .error _
    · rw [children, children']
      have claims := claim_agree same related (contents.registry.scopeOf path) .record first
      dsimp only
      generalize contents.claim _ .record _ = claim, contents'.claim _ .record _ = claim' at claims
      cases claims with
      | error error => exact .error _
      | ok values => exact .ok values.2
  | enumeration => exact fillEnumeration_agree inStep related _ thins
  | property =>
    dsimp only
    cases contents.registry.scopeOf path with
    | none => exact .ok related
    | some owner =>
      obtain ⟨grown, grown', like, added, added'⟩ | ⟨error, refused, refused'⟩ :=
        inStep.fillProperty related.registry owner thins kind
      · simp only [added, added']
        exact .ok (related.withRegistry like)
      · simp only [refused, refused']
        exact .error error
  | comment =>
    dsimp only
    cases contents.registry.scopeOf path with
    | none => exact .ok related
    | some owner =>
      rw [thins.commentText (by simp [Node.declares, kind])]
      refine .ok (related.withRegistry ?_)
      exact inStep.onRecord related.registry owner fun _ _ => inStep.recordComment _ _ _
  | _ => exact .ok related

/-- A visit of a node that is dropped for the other pass is made up for. -/
theorem exists_visit_of_dropped (related : contents.Alike alike contents') {site : Site}
    (fit : droppable site.node) :
    ∃ visited, visit camelCaseKeys site contents = .ok visited ∧ visited.Alike alike contents' := by
  simp only [visit, (inStep.inert site.node fit).1]
  cases contents.registry.scopeOf site.path with
  | none => exact ⟨_, rfl, related⟩
  | some owner =>
    refine ⟨_, rfl, ?_, related.filled⟩
    rw [← contents'.registry.onRecord_self owner]
    exact inStep.onRecord related.registry owner (inStep.droppedFromRecord site.node fit)

/-- Sites are visited in both passes up to the same fault. -/
theorem visitAll_agree (related : contents.Alike alike contents') {sites sites' : List Site}
    (thinned : Site.Thinned droppable sites sites') :
    Agree (Contents.Alike alike)
      ((visitAll camelCaseKeys sites contents).mapError Stopped.error)
      ((visitAll camelCaseKeys' sites' contents').mapError Stopped.error) := by
  induction thinned generalizing contents contents' with
  | nil => exact .ok related
  | kept thins _ ih =>
    rw [visitAll_cons_cause, visitAll_cons_cause]
    exact (visit_agree inStep related _ thins).bind fun _ _ like => ih like
  | dropped fit _ ih =>
    -- Only one of the passes makes this visit, which cannot fail and keeps the contents related.
    obtain ⟨next, visited, like⟩ := exists_visit_of_dropped inStep related fit
    rw [visitAll, visited]
    exact ih like

/-- A node of the top level is filled in in both passes, or in neither and for the same reason. -/
theorem fillTop_agree (related : contents.Alike alike contents') {node node' : Node}
    (thins : node.ThinsTo droppable node') :
    Agree (Contents.Alike alike)
      ((fillTop camelCaseKeys node contents).mapError Stopped.error)
      ((fillTop camelCaseKeys' node' contents').mapError Stopped.error) := by
  have alone : SchemaGraph.Thinned droppable false false [node] [node'] :=
    .kept thins.kind thins.text thins.position thins.below .nil
  rw [fillTop_eq_visitAll, fillTop_eq_visitAll]
  exact visitAll_agree inStep related (alone.sites (fun node fit => (inStep.inert node fit).1) [])

end Visits

/-- Why the second pass was halted, and the name given by the node where it was. -/
def Halt.cause (halt : Halt) : CompileError × Option String :=
  (halt.stopped.error, halt.node.firstChildText?)

/-- Why the nodes are not filled in is why the first of them is not, or else why those behind are
not. -/
theorem fillAll_cons_cause (camelCaseKeys : Bool) (node : Node) (rest : Schema)
    (contents : Contents) :
    (fillAll camelCaseKeys (node :: rest) contents).mapError Halt.cause =
      (((fillTop camelCaseKeys node contents).mapError Stopped.error).mapError
        (·, node.firstChildText?)).bind fun filled =>
          (fillAll camelCaseKeys rest filled).mapError Halt.cause := by
  rw [fillAll]
  cases fillTop camelCaseKeys node contents <;> rfl

/-- The second passes are halted at the same node of the top level and for the same reason. -/
theorem fillAll_agree (inStep : InStep droppable camelCaseKeys camelCaseKeys' alike)
    (related : contents.Alike alike contents') {schema schema' : Schema}
    (thinned : List.Forall₂ (ThinsTo droppable) schema schema') :
    Agree (Contents.Alike alike)
      ((fillAll camelCaseKeys schema contents).mapError Halt.cause)
      ((fillAll camelCaseKeys' schema' contents').mapError Halt.cause) := by
  induction thinned generalizing contents contents' with
  | nil => exact .ok related
  | cons thins _ ih =>
    rw [fillAll_cons_cause, fillAll_cons_cause, thins.firstChildText?]
    exact ((fillTop_agree inStep related thins).mapError _).bind fun _ _ like => ih like

end Contents

/-- The report as if it was made at another instant. -/
def Report.madeAt (moment : Instant) (report : Report) : Report :=
  { report with compiledAt := moment }

/-- The report of the first pass takes nothing but the instant from the surroundings. -/
theorem Shells.madeAt_report (shells : Shells) (moment moment' : Instant) :
    (shells.report moment').madeAt (shells.report moment).compiledAt = shells.report moment := by
  rw [report, report, foldl_record_skips, foldl_record_skips]
  rfl

/-- Two compiles that agree: they fail with the same error or give related registries, and their
reports differ in the instant at most. -/
structure Compilation.Alike (alike : Declaration → Declaration → Prop)
    (compiled compiled' : Compilation) : Prop where
  result : Agree (Registry.Alike alike) compiled.result compiled'.result
  report : compiled'.report.madeAt compiled.report.compiledAt = compiled.report

/-- Shells are related to themselves. -/
theorem InStep.refl_of_bare {droppable : Node → Prop} {camelCaseKeys camelCaseKeys' : Bool}
    {alike : Declaration → Declaration → Prop}
    (inStep : InStep droppable camelCaseKeys camelCaseKeys' alike) {registry : Registry}
    (shells : registry.bare = registry) : Registry.Alike alike registry registry := by
  refine List.forall₂_same.mpr fun declaration listed => inStep.shell declaration ?_
  have same : registry.declarations.map Declaration.bare = registry.declarations.map id := by
    rw [List.map_id]
    exact congrArg Registry.declarations shells
  exact List.map_inj_left.mp same declaration listed

section Compile

variable {droppable : Node → Prop} {alike : Declaration → Declaration → Prop}
  {schema schema' : Schema}

/-- A compile whose builtin types can be registered ends as its second pass does. -/
theorem compile_eq {settings : Settings} {builtins : Registry}
    (registered : withBuiltins settings.primitives settings.blob = .ok builtins)
    (moment : Instant) :
    compile settings moment schema =
      match (Contents.ofSchema settings.camelCaseKeys (Shells.ofSchema builtins schema).registry
          schema).mapError Contents.Halt.cause with
      | .ok contents =>
        ⟨.ok contents.registry, (Shells.ofSchema builtins schema).report moment,
          if settings.quiet then [] else (Shells.ofSchema builtins schema).registry.listing⟩
      | .error (error, scope) =>
        .failed error scope ((Shells.ofSchema builtins schema).report moment)
          (if settings.quiet then [] else (Shells.ofSchema builtins schema).registry.listing) := by
  rw [compile, registered]
  dsimp only
  cases Contents.ofSchema settings.camelCaseKeys (Shells.ofSchema builtins schema).registry
    schema <;> rfl

/-- A compile of a thinned schema agrees with one of the whole, also if the switches of the settings
differ. -/
theorem compile_alike (settings settings' : Settings)
    (primitives : settings'.primitives = settings.primitives)
    (blob : settings'.blob = settings.blob)
    (inStep : InStep droppable settings.camelCaseKeys settings'.camelCaseKeys alike)
    (thinned : Thinned droppable false false schema schema') (moment moment' : Instant) :
    (compile settings moment schema).Alike alike (compile settings' moment' schema') ∧
      (settings'.quiet = settings.quiet →
        (compile settings' moment' schema').listing =
          (compile settings moment schema).listing) := by
  cases registered : withBuiltins settings.primitives settings.blob with
  | error error =>
    rw [compile, compile, primitives, blob, registered]
    exact ⟨⟨.error _, rfl⟩, fun _ => rfl⟩
  | ok builtins =>
    have registered' : withBuiltins settings'.primitives settings'.blob = .ok builtins := by
      rw [primitives, blob, registered]
    have passes : Shells.ofSchema builtins schema' = Shells.ofSchema builtins schema :=
      Shells.declareAll_of_thinned (fun node fit => (inStep.inert node fit).2) thinned _ _
    have sound := Shells.sound_ofSchema registered schema
    have reports := Shells.madeAt_report (Shells.ofSchema builtins schema) moment moment'
    have start : Contents.Alike alike ⟨(Shells.ofSchema builtins schema).registry, []⟩
        ⟨(Shells.ofSchema builtins schema).registry, []⟩ := ⟨inStep.refl_of_bare sound.bare, rfl⟩
    have fills := Contents.fillAll_agree inStep start thinned.forall₂
    rw [compile_eq registered, compile_eq registered', passes, Contents.ofSchema, Contents.ofSchema]
    generalize (Contents.fillAll settings.camelCaseKeys schema _).mapError _ = filled,
      (Contents.fillAll settings'.camelCaseKeys schema' _).mapError _ = filled' at fills
    cases fills with
    | error cause =>
      obtain ⟨error, scope⟩ := cause
      refine ⟨⟨.error _, ?_⟩, fun quiet => ?_⟩
      · exact congrArg (Report.fail (error.toDiagnostic scope)) reports
      · dsimp only [Compilation.failed]
        rw [quiet]
    | ok like =>
      refine ⟨⟨.ok like.registry, reports⟩, fun quiet => ?_⟩
      dsimp only
      rw [quiet]

end Compile

end SchemaGraph
