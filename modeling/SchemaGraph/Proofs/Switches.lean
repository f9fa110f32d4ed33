import SchemaGraph.Proofs.Lockstep
import SchemaGraph.Proofs.PassAgreement

/-!
# The switches of the settings

Neither switch reaches into the graph. The switch for storage keys is written into every property
and is not read again by a compile, so two compiles that differ in it go on in step: they fail
alike, they report alike, and their graphs differ in that switch alone. The switch for quiet holds
back the listing of the records, which is made between the passes and does not depend on how the
second one ends.
-/

namespace SchemaGraph

open Node Registry

/-- The record with another switch in all of its properties. -/
def RecordType.withKeys (camelCaseKeys : Bool) (record : RecordType) : RecordType :=
  { record with properties := record.properties.map (Property.withKeys camelCaseKeys) }

/-- The declaration with another switch in all of its properties. -/
def Declaration.withKeys (camelCaseKeys : Bool) : Declaration → Declaration :=
  onRecord (RecordType.withKeys camelCaseKeys)

namespace Registry

/-- The registry with another switch in all properties. -/
def withKeys (camelCaseKeys : Bool) (registry : Registry) : Registry :=
  ⟨registry.declarations.map (Declaration.withKeys camelCaseKeys)⟩

/-- All properties have this switch. -/
def KeysAre (camelCaseKeys : Bool) (registry : Registry) : Prop :=
  ∀ record, .record record ∈ registry.declarations →
    ∀ property ∈ record.properties, property.camelCaseKeys = camelCaseKeys

/-- The listing gives the qualified and the display names of the records of these ids. -/
def Lists (registry : Registry) (ids : List TypeId) (listing : List (String × String)) : Prop :=
  List.Forall₂ (fun id entry => ∃ record, registry.declarations[id]? = some (.record record) ∧
    entry = (record.name, Name.display record.name)) ids listing

end Registry

section Keys

variable {camelCaseKeys camelCaseKeys' : Bool}

/-- A record gains a property under either switch. -/
theorem RecordType.withKeys_gain (property : Property) (identity : Bool) (record : RecordType) :
    (record.gain property identity).withKeys camelCaseKeys' =
      (record.withKeys camelCaseKeys').gain (property.withKeys camelCaseKeys') identity := by
  simp [gain, withKeys]

/-- Shells have no keys to be switched. -/
theorem Declaration.withKeys_of_bare {declaration : Declaration}
    (shell : declaration.bare = declaration) :
    declaration.withKeys camelCaseKeys' = declaration := by
  cases declaration with
  | record record =>
    have empty : record = { record with properties := [] } := by
      rw [← Declaration.record.inj shell]
    rw [empty]
    rfl
  | _ => rfl

/-- What the second pass does to a record it does to the record with the other switch. -/
theorem inStep_withKeys : InStep (fun _ => False) camelCaseKeys camelCaseKeys'
    fun declaration declaration' => declaration' = declaration.withKeys camelCaseKeys' where
  shell _ bare := (Declaration.withKeys_of_bare bare).symm
  bare := by
    rintro declaration _ rfl
    cases declaration <;> rfl
  gain := by
    intro record record' property identity _ like
    obtain rfl := Declaration.record.inj like
    exact congrArg Declaration.record (record.withKeys_gain property identity).symm
  recordComment := by
    intro record record' comment like
    obtain rfl := Declaration.record.inj like
    rfl
  value := by
    intro enumeration enumeration' value like
    obtain rfl := Declaration.enumeration.inj like
    rfl
  enumerationComment := by
    intro enumeration enumeration' comment like
    obtain rfl := Declaration.enumeration.inj like
    rfl
  inert _ impossible := impossible.elim
  droppedFromRecord _ impossible := impossible.elim
  droppedFromEnumeration _ impossible := impossible.elim

/-- Registries that differ in the switches of their declarations only differ by one switch. -/
theorem Registry.Alike.eq_withKeys {registry registry' : Registry}
    (like : Registry.Alike (fun declaration declaration' =>
      declaration' = declaration.withKeys camelCaseKeys') registry registry') :
    registry' = registry.withKeys camelCaseKeys' := by
  have declarations : registry'.declarations.map id = registry.declarations.map _ := like.map_eq
  rw [List.map_id] at declarations
  exact congrArg Registry.mk declarations

/-- After the switch every key is as it says. -/
theorem Registry.keysAre_withKeys (registry : Registry) :
    (registry.withKeys camelCaseKeys').KeysAre camelCaseKeys' := by
  intro record listed property inRecord
  obtain ⟨declaration, _, same⟩ := List.mem_map.mp listed
  cases declaration with
  | record type =>
    rw [← Declaration.record.inj same] at inRecord
    obtain ⟨_, _, rfl⟩ := List.mem_map.mp inRecord
    rfl
  | _ => cases same

end Keys

/-- The listing of a registry gives all of its records, in the order of their ids. -/
theorem Registry.lists_listing (registry : Registry) :
    registry.Lists (registry.idsOf .record) registry.listing := by
  rw [Lists, ← map_fst_ofKind, listing, List.forall₂_map_left_iff, List.forall₂_map_right_iff,
    List.forall₂_same]
  rintro ⟨id, declaration⟩ listed
  obtain ⟨listed, kind⟩ := List.mem_filter.mp listed
  obtain ⟨index, inside, same⟩ := List.mem_mapIdx.mp listed
  obtain ⟨rfl, here⟩ := Prod.mk.inj same
  obtain ⟨record, rfl⟩ := Declaration.exists_record (eq_of_beq kind)
  exact ⟨record, List.getElem?_eq_some_iff.mpr ⟨inside, here⟩, rfl⟩

/-- The listing is made of the shells, however the second pass ends. -/
theorem listing_compile {settings : Settings} (distinct : settings.builtinNames.Nodup)
    (moment : Instant) (schema : Schema) :
    (compile settings moment schema).listing =
      if settings.quiet then [] else (shellsOf settings schema).listing := by
  rw [compile_eq (withBuiltins_eq_ok_iff.mpr ⟨distinct, rfl⟩)]
  split <;> rfl

/-- The graphs of two compiles of the same builtin types differ in the switch of the properties. -/
theorem result_withKeys (settings settings' : Settings)
    (primitives : settings'.primitives = settings.primitives)
    (blob : settings'.blob = settings.blob) (moment moment' : Instant) (schema : Schema) :
    (compile settings' moment' schema).result =
      (compile settings moment schema).result.map (withKeys settings'.camelCaseKeys) := by
  have results := (compile_alike settings settings' primitives blob inStep_withKeys
    (Thinned.refl false false schema) moment moment').1.result
  generalize (compile settings moment schema).result = result,
    (compile settings' moment' schema).result = result' at results
  cases results with
  | ok like => exact congrArg Except.ok like.eq_withKeys
  | error error => rfl

/-- The switches of the settings do not leak into the graph, whatever the shape of the trees. Under
the same builtin types two compiles either both succeed or both fail with the same error, their
reports differ in the instant at most, and all properties have the switch of their own settings,
which is all that their graphs differ in. The listing is empty if the settings ask for quiet or the
builtin types collide. Otherwise it gives the qualified and the display names of the records that
the first pass has registered, in order, also if the second pass fails. -/
theorem compile_switches (settings settings' : Settings)
    (primitives : settings'.primitives = settings.primitives)
    (blob : settings'.blob = settings.blob) (moment moment' : Instant) (schema : Schema) :
    (compile settings' moment' schema).result =
      (compile settings moment schema).result.map (withKeys settings'.camelCaseKeys) ∧
    (∀ registry, (compile settings moment schema).result = .ok registry →
      registry.KeysAre settings.camelCaseKeys) ∧
    (compile settings' moment' schema).report.madeAt
        (compile settings moment schema).report.compiledAt =
      (compile settings moment schema).report ∧
    (settings.quiet ∨ ¬ settings.builtinNames.Nodup →
      (compile settings moment schema).listing = []) ∧
    (settings.quiet = false → settings.builtinNames.Nodup →
      (shellsOf settings schema).Lists
        (Attempt.idsOf .record (Shells.attempts none schema ⟨settings.builtins⟩))
        (compile settings moment schema).listing) := by
  refine ⟨result_withKeys settings settings' primitives blob moment moment' schema, ?_, ?_, ?_, ?_⟩
  · intro registry success
    -- A compile is in step with itself, so its graph is that graph with its own switch everywhere.
    have same := result_withKeys settings settings rfl rfl moment moment schema
    rw [success] at same
    rw [Except.ok.inj same]
    exact registry.keysAre_withKeys
  · exact (compile_alike settings settings' primitives blob inStep_withKeys
      (Thinned.refl false false schema) moment moment').1.report
  · intro silent
    by_cases distinct : settings.builtinNames.Nodup
    · rw [listing_compile distinct, if_pos (silent.resolve_right (not_not.mpr distinct))]
    · obtain ⟨name, failure⟩ := compile_of_collide distinct moment schema
      rw [failure]
      rfl
  · intro loud distinct
    rw [listing_compile distinct, if_neg (by simp [loud]),
      ← (Shells.ofSchema_attempts settings schema moment).1 .record (.inl rfl)]
    exact lists_listing _

/-- Settings in which both switches are on. -/
def Settings.switchedOn : Settings :=
  Settings.default.switchOn true true

/-- With both switches on, the keys change and nothing is listed; the graph is the same otherwise.
-/
theorem compile_switches_linkedSchema :
    Settings.switchedOn.primitives = Settings.default.primitives ∧
    Settings.switchedOn.blob = Settings.default.blob ∧
    ∃ registry, (compile Settings.default Instant.epoch linkedSchema).result = .ok registry ∧
      (compile Settings.switchedOn Instant.epoch linkedSchema).result =
        .ok (registry.withKeys true) ∧
      registry.KeysAre false ∧
      (shellsOf Settings.default linkedSchema).Lists [9]
        (compile Settings.default Instant.epoch linkedSchema).listing ∧
      (compile Settings.switchedOn Instant.epoch linkedSchema).listing = [] := by
  have placed : WellPlaced linkedSchema := by decide
  have distinct : Settings.default.builtinNames.Nodup := by decide
  have attempted : Attempt.idsOf .record
      (Shells.attempts none linkedSchema ⟨Settings.default.builtins⟩) = [9] := by decide
  obtain ⟨registry, success⟩ := wellFormed_linkedSchema.result placed Instant.epoch
  obtain ⟨results, keys, _, _, lists⟩ := compile_switches Settings.default
    Settings.switchedOn rfl rfl Instant.epoch Instant.epoch linkedSchema
  obtain ⟨_, _, _, silent, _⟩ := compile_switches Settings.switchedOn
    Settings.default rfl rfl Instant.epoch Instant.epoch linkedSchema
  refine ⟨rfl, rfl, registry, success, ?_, keys registry success, ?_, silent (.inl rfl)⟩
  · rw [results, success]
    rfl
  · rw [← attempted]
    exact lists rfl distinct

end SchemaGraph
