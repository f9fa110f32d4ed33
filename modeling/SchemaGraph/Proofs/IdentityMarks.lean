import SchemaGraph.Proofs.OutlineOrder

/-!
# The mark of the identity

The identity of a record is a position among its properties, and the outline marks the lines of all
properties that have the name of the one at this position. Nothing keeps the properties of a record
from having one name, so the mark stands at the identity alone exactly if no other property has its
name.
-/

namespace SchemaGraph

open Node

/-- The positions of the properties that have the name of the identity property. -/
def RecordType.namesakes (record : RecordType) : List Nat :=
  match record.identityProperty? with
  | some identity => record.properties.findIdxs (·.name == identity.name)
  | none => []

/-- The line of a property, with or without the mark of the identity. -/
def Registry.propertyLine (registry : Registry) (indent : String) (property : Property)
    (marked : Bool) : String :=
  ShownProperty.text indent ⟨property.key, registry.shownType property.type, marked⟩

namespace RecordType

variable {record : RecordType}

/-- The identity property is the one at the designated place. -/
theorem identityProperty?_eq_some {index : Nat} (designated : record.identity = some index) :
    record.identityProperty? = record.properties[index]? := by
  rw [identityProperty?, designated, Option.bind_some]

/-- A namesake has the name of the identity property. -/
theorem mem_namesakes {index : Nat} :
    index ∈ record.namesakes ↔ ∃ property, record.properties[index]? = some property ∧
      some property.name = record.identityProperty?.map Property.name := by
  rw [namesakes]
  cases record.identityProperty? with
  | none => simp
  | some identity =>
    rw [List.mem_findIdxs_iff_exists_getElem_pos]
    constructor
    · rintro ⟨inRange, same⟩
      exact ⟨_, List.getElem?_eq_getElem inRange, by simpa using same⟩
    · rintro ⟨property, found, same⟩
      obtain ⟨inRange, rfl⟩ := List.getElem?_eq_some_iff.mp found
      exact ⟨inRange, by simpa using same⟩

/-- The marked properties are listed in their order and none of them twice. -/
theorem namesakes_increasing (record : RecordType) : record.namesakes.Pairwise (· < ·) := by
  rw [namesakes]
  split
  · exact List.pairwise_findIdxs
  · exact .nil

/-- A namesake is the only one exactly if no other position is listed. -/
theorem namesakes_eq_singleton_iff {index : Nat} (listed : index ∈ record.namesakes) :
    record.namesakes = [index] ↔ ∀ other ∈ record.namesakes, other = index := by
  constructor
  · intro alone other isNamesake
    rwa [alone, List.mem_singleton] at isNamesake
  · intro same
    have nodup : record.namesakes.Nodup := record.namesakes_increasing.imp Nat.ne_of_lt
    have perm := List.perm_ext_iff_of_nodup nodup (List.nodup_singleton index)
    refine List.perm_singleton.mp (perm.mpr fun other => ?_)
    rw [List.mem_singleton]
    exact ⟨same other, fun isIndex => isIndex ▸ listed⟩

end RecordType

namespace Registry

variable {registry : Registry}

/-- The outline marks the namesakes of the identity. -/
theorem map_text_shownProperties (registry : Registry) (record : RecordType) (indent : String) :
    (registry.shownProperties record).map (ShownProperty.text indent) =
      record.properties.mapIdx fun index property =>
        registry.propertyLine indent property (decide (index ∈ record.namesakes)) := by
  rw [shownProperties, List.map_map]
  apply List.ext_getElem (by simp)
  intro index shown _
  have inRange : index < record.properties.length := by simpa using shown
  have atIndex : record.properties[index]? = some record.properties[index] :=
    List.getElem?_eq_getElem inRange
  have marked : decide (index ∈ record.namesakes) =
      (some record.properties[index].name == record.identityProperty?.map Property.name) := by
    rw [Bool.eq_iff_iff, decide_eq_true_iff, RecordType.mem_namesakes, beq_iff_eq, atIndex]
    simp
  rw [List.getElem_map, List.getElem_mapIdx, propertyLine, marked, Function.comp_apply]

/-- A declaration of the schema has one entry. -/
theorem Coherent.exists_entry (coherent : registry.Coherent) {id : TypeId}
    {declaration : Declaration} (found : registry.declarations[id]? = some declaration)
    (user : declaration.isUser = true) :
    ∃ depth front behind, registry.outline =
        front ++ ⟨depth, id, declaration.name, registry.shown declaration⟩ :: behind ∧
      ∀ entry ∈ front ++ behind, entry.id ≠ id := by
  have isRow := coherent.mem_tree.mpr (exists_declaredIn_iff.mpr ⟨declaration, found, user⟩)
  obtain ⟨⟨depth, _⟩, listed, rfl⟩ := List.mem_map.mp isRow
  have isEntry := mem_outline.mpr ⟨depth, _, declaration, listed, found, rfl⟩
  obtain ⟨front, behind, split⟩ := List.append_of_mem isEntry
  refine ⟨depth, front, behind, split, fun entry elsewhere same => ?_⟩
  have once := coherent.walked_tree.nodup coherent registry.siblings_roots
  rw [← coherent.map_id_outline, split, List.map_append, List.map_cons,
    List.nodup_middle, List.nodup_cons, ← List.map_append] at once
  exact once.1 (List.mem_map.mpr ⟨entry, elsewhere, same⟩)

end Registry

open Registry

/-- The outline of a compiled registry has one entry for a record, and of the property lines in it
those of the namesakes of the identity are marked. Without an identity there are none. Otherwise
they are the properties that have the name of the one at the identity index, and so this one is
marked alone exactly if no other property has its name. -/
theorem outline_marks_namesakes {settings : Settings} {moment : Instant} {schema : Schema}
    {registry : Registry} (success : (compile settings moment schema).result = .ok registry)
    {id : TypeId} {record : RecordType}
    (found : registry.declarations[id]? = some (.record record)) :
    (∃ front entry behind, registry.outline = front ++ entry :: behind ∧ entry.id = id ∧
      (∀ other ∈ front ++ behind, other.id ≠ id) ∧
      entry.text = "\n" ++ indentation entry.depth ++ "data " ++ record.name ++
        OutlineEntry.commentText record.comment ++ "\n" ++
        String.join (record.properties.mapIdx fun index property =>
          registry.propertyLine (indentation entry.depth) property
            (decide (index ∈ record.namesakes)))) ∧
    (record.identity = none → record.namesakes = []) ∧
    ∀ index, record.identity = some index → ∃ property,
      record.properties[index]? = some property ∧
      (∀ other, other ∈ record.namesakes ↔
        ∃ named, record.properties[other]? = some named ∧ named.name = property.name) ∧
      (record.namesakes = [index] ↔ ∀ other named, record.properties[other]? = some named →
        named.name = property.name → other = index) := by
  have coherent := coherent_of_result success
  refine ⟨?_, fun absent => ?_, fun index designated => ?_⟩
  · obtain ⟨depth, front, behind, split, elsewhere⟩ := coherent.exists_entry found rfl
    refine ⟨front, _, behind, split, rfl, elsewhere, ?_⟩
    rw [← map_text_shownProperties]
    rfl
  · rw [RecordType.namesakes, RecordType.identityProperty?, absent]
    rfl
  · have inRange : index < record.properties.length :=
      coherent.identity _ (List.mem_of_getElem? found) index designated
    have atIndex := List.getElem?_eq_getElem inRange
    have identity := (RecordType.identityProperty?_eq_some designated).trans atIndex
    have isNamesake (other : Nat) : other ∈ record.namesakes ↔
        ∃ named, record.properties[other]? = some named ∧
          named.name = record.properties[index].name := by
      rw [RecordType.mem_namesakes, identity, Option.map_some]
      simp only [Option.some.injEq]
    refine ⟨_, atIndex, isNamesake, ?_⟩
    rw [RecordType.namesakes_eq_singleton_iff ((isNamesake index).mpr ⟨_, atIndex, rfl⟩)]
    simp only [isNamesake, forall_exists_index, and_imp]

/-- A property of a builtin type, with what stands behind the type. -/
def typedProperty (name type : String) (behind : List Node) : Node :=
  make .property "property" (token name :: make .typePrimitive "type" [] :: token type :: behind)

/-- The second of two properties is the identity. -/
def accountSchema : Schema :=
  [record "Account" [typedProperty "owner" "string" [],
    typedProperty "number" "int" [make .option "option" [token "identity"]]]]

/-- The properties of the record that it declares. -/
def accountProperties : List Property :=
  [⟨9, "owner", .primitive "string", .primitive, none, false⟩,
    ⟨9, "number", .primitive "int", .primitive, none, false⟩]

/-- In a record whose properties have distinct names only the identity is marked. -/
theorem outline_marks_namesakes_accountSchema :
    ∃ registry record,
      (compile Settings.default Instant.epoch accountSchema).result = .ok registry ∧
      registry.declarations[9]? = some (.record record) ∧ record.identity = some 1 ∧
      record.properties = accountProperties ∧ record.namesakes = [1] ∧
      ∃ entry ∈ registry.outline, entry.id = 9 := by
  have compiled : (compile Settings.default Instant.epoch accountSchema).result.map
      (fun registry => registry.record? 9) =
      .ok (some ⟨"Account", none, none, accountProperties, some 1, []⟩) := by
    decide +kernel
  obtain ⟨registry, success, isRecord⟩ := map_eq_ok_iff.mp compiled
  have found := record?_eq_some_iff.mp isRecord
  obtain ⟨⟨front, entry, behind, split, atId, _⟩, _, marked⟩ :=
    outline_marks_namesakes success found
  obtain ⟨property, isIdentity, _, alone⟩ := marked 1 rfl
  refine ⟨registry, _, success, found, rfl, rfl, alone.mpr fun other named isNamed same => ?_,
    entry, split ▸ List.mem_append_right _ List.mem_cons_self, atId⟩
  obtain rfl := Option.some.inj isIdentity
  match other, isNamed with
  | 0, isNamed =>
    obtain rfl := Option.some.inj isNamed
    exact absurd same (by decide)
  | 1, _ => rfl

/-- The first of two properties of one name is the identity. -/
def twinSchema : Schema :=
  [record "Order" [typedProperty "id" "int" [make .option "option" [token "identity"]],
    typedProperty "id" "string" []]]

/-- Both properties are marked, although the second one is not the identity. -/
theorem exists_mark_elsewhere :
    ∃ registry record,
      (compile Settings.default Instant.epoch twinSchema).result = .ok registry ∧
      registry.declarations[9]? = some (.record record) ∧ record.identity = some 0 ∧
      registry.outline.map OutlineEntry.text =
        ["\ndata Order\n  id: int [identity]\n  id: string [identity]\n"] := by
  have compiled : (compile Settings.default Instant.epoch twinSchema).result.map
      (fun registry => ((registry.record? 9).bind RecordType.identity,
        registry.outline.map OutlineEntry.text)) =
      .ok (some 0, ["\ndata Order\n  id: int [identity]\n  id: string [identity]\n"]) := by
    decide +kernel
  obtain ⟨registry, success, facts⟩ := map_eq_ok_iff.mp compiled
  obtain ⟨identity, text⟩ := Prod.mk.inj facts
  obtain ⟨record, isRecord, designated⟩ := Option.bind_eq_some_iff.mp identity
  exact ⟨registry, record, success, record?_eq_some_iff.mp isRecord, designated, text⟩

end SchemaGraph
