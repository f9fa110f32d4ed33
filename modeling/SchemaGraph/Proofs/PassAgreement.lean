import SchemaGraph.Proofs.Meaning

/-!
# The two passes agree

A well-placed schema compiles exactly if it is well formed, which is said by the names and the
shapes of its nodes alone. The first pass goes on behind a declaration that it cannot register,
but nothing is lost: the second pass stops at it. So whenever a compile succeeds the first pass
has skipped nothing, and the second pass has met every shell once.
-/

namespace SchemaGraph

open Node Registry

/-- The node spells a property whose references all have a candidate among the names, and all of
its options can be read. -/
def Node.PropertyFits (names path : List String) (node : Node) : Prop :=
  ∃ name expression extras, node.SpellsProperty name expression extras ∧
    (∀ reference ∈ expression.references,
      ∃ candidate ∈ Name.candidates path reference, candidate ∈ names) ∧
    OptionsAccepted extras

/-- A property that fits goes on to fit when more names are declared. -/
theorem Node.PropertyFits.mono {names names' path : List String} {node : Node}
    (fits : node.PropertyFits names path) (grows : ∀ name ∈ names, name ∈ names') :
    node.PropertyFits names' path := by
  obtain ⟨name, expression, extras, spells, known, accepted⟩ := fits
  refine ⟨name, expression, extras, spells, fun reference listed => ?_, accepted⟩
  obtain ⟨candidate, tried, found⟩ := known reference listed
  exact ⟨candidate, tried, grows candidate found⟩

/-- A schema is well formed under settings: the names of the builtin types are distinct, all
declarations have fit names, no two siblings share a name and no declaration has the name of a
builtin type, and every property of a record fits in. -/
structure WellFormed (settings : Settings) (schema : Schema) : Prop where
  builtins : settings.builtinNames.Nodup
  named : ∀ node ∈ subnodesIn schema, node.declares = true → node.HasLocalName
  siblings : SiblingsDistinct [] schema
  fresh : ∀ site ∈ Site.declarations [] schema, site.name ∉ settings.builtinNames
  properties : ∀ site ∈ Site.inside [] schema, site.node.kind = .property → site.path ≠ [] →
    site.node.PropertyFits (allNames settings schema) site.path

section

variable {settings : Settings} {schema : Schema}

/-- In a well-placed schema every declaring node is at the site of a declaration. -/
theorem forall_declarations_iff (placed : WellPlaced schema) {P : Node → Prop} :
    (∀ site ∈ Site.declarations [] schema, P site.node) ↔
      ∀ node ∈ subnodesIn schema, node.declares = true → P node := by
  have nodes := map_node_declarations placed []
  constructor
  · intro holds node listed declares
    have mapped : node ∈ (Site.declarations [] schema).map Site.node :=
      nodes ▸ List.mem_filter.mpr ⟨listed, declares⟩
    obtain ⟨site, found, rfl⟩ := List.mem_map.mp mapped
    exact holds site found
  · intro holds site found
    have mapped := List.mem_map_of_mem (f := Site.node) found
    rw [nodes, List.mem_filter] at mapped
    exact holds site.node mapped.1 mapped.2

/-- All names are distinct if siblings are, and none of them is that of a builtin type. -/
theorem nodup_allNames (distinct : ((Site.declarations [] schema).map Site.name).Nodup)
    (builtins : settings.builtinNames.Nodup)
    (fresh : ∀ site ∈ Site.declarations [] schema, site.name ∉ settings.builtinNames) :
    (allNames settings schema).Nodup := by
  refine List.nodup_append.mpr ⟨builtins, distinct, ?_⟩
  rintro name builtin _ listed rfl
  obtain ⟨site, declared, rfl⟩ := List.mem_map.mp listed
  exact fresh site declared builtin

/-- The names of a well-formed schema are distinct. -/
theorem WellFormed.distinct (placed : WellPlaced schema) (formed : WellFormed settings schema) :
    (allNames settings schema).Nodup := by
  have named := (forall_declarations_iff placed).mpr formed.named
  refine nodup_allNames ?_ formed.builtins formed.fresh
  exact (Site.nodup_name_iff fun site declared => (named site declared).dotFree).mpr formed.siblings

/-- The first pass over a well-formed schema skips nothing and registers its shells. -/
theorem WellFormed.ofSchema (placed : WellPlaced schema) (formed : WellFormed settings schema) :
    Shells.ofSchema ⟨settings.builtins⟩ schema = ⟨shellGraph settings schema, []⟩ :=
  Shells.ofSchema_shells placed ((forall_declarations_iff placed).mpr formed.named)
    (formed.distinct placed)

/-- The shells of a well-formed schema are what the first pass leaves behind. -/
theorem WellFormed.sound (placed : WellPlaced schema) (formed : WellFormed settings schema) :
    Shells.Sound settings (shellGraph settings schema) := by
  have sound := Shells.sound_ofSchema (withBuiltins_eq_ok_iff.mpr ⟨formed.builtins, rfl⟩) schema
  rwa [formed.ofSchema placed] at sound

/-- At a site inside a record, references denote what they mean. -/
theorem typeNamed_shellGraph (precede : (shellGraph settings schema).ParentsPrecede)
    (distinct : (allNames settings schema).Nodup) {site : Site}
    (listed : site ∈ Site.inside [] schema) {owner : TypeId}
    (scope : (shellGraph settings schema).scopeOf site.path = some owner) (reference : String)
    (type : SchemaType) :
    (shellGraph settings schema).typeNamed (some owner) reference = .ok type ↔
      (shellGraph settings schema).Means site.path reference type := by
  have stands := stands_shellGraph distinct listed
  rw [← scopeOf_shellGraph distinct listed, scope] at stands
  exact typeNamed_eq_ok_iff_means precede stands

/-- A node inside a record describes a property exactly if it fits in. -/
theorem exists_describes_iff_propertyFits (precede : (shellGraph settings schema).ParentsPrecede)
    (distinct : (allNames settings schema).Nodup) {site : Site}
    (listed : site ∈ Site.inside [] schema) {owner : TypeId}
    (scope : (shellGraph settings schema).scopeOf site.path = some owner) (camelCaseKeys : Bool) :
    (∃ reading, (shellGraph settings schema).Describes
      (fun reference type =>
        (shellGraph settings schema).typeNamed (some owner) reference = .ok type)
      camelCaseKeys owner site.node reading) ↔
      site.node.PropertyFits (allNames settings schema) site.path := by
  rw [exists_describes_iff]
  simp only [PropertyFits, typeNamed_shellGraph precede distinct listed scope, exists_means_iff,
    names_shellGraph]

/-- If the second pass finds no fault, all names are fit and distinct. -/
private theorem names_of_fits (placed : WellPlaced schema) {shells : Registry}
    (sound : Shells.Sound settings shells) {camelCaseKeys : Bool}
    (fits : ∀ site ∈ Site.inside [] schema, site.Fits shells camelCaseKeys)
    (met : (Site.ids shells (Site.inside [] schema)).Nodup) :
    (∀ node ∈ subnodesIn schema, node.declares = true → node.HasLocalName) ∧
      SiblingsDistinct [] schema ∧
      ∀ site ∈ Site.declarations [] schema, site.name ∉ settings.builtinNames := by
  have declaring {site : Site} (declared : site ∈ Site.declarations [] schema) :
      site ∈ Site.inside [] schema ∧ site.node.declares = true := List.mem_filter.mp declared
  have named : ∀ site ∈ Site.declarations [] schema, site.node.HasLocalName :=
    fun site declared => (fits site (declaring declared).1).named (declaring declared).2
  refine ⟨(forall_declarations_iff placed).mp named,
    (Site.nodup_name_iff fun site declared => (named site declared).dotFree).mp
      (Site.nodup_name_of_ids fits met), fun site declared => ?_⟩
  exact (fits site (declaring declared).1).notMem_builtinNames sound (declaring declared).2

/-- A schema that compiles is well formed. -/
theorem wellFormed_of_result (placed : WellPlaced schema) {moment : Instant} {registry : Registry}
    (success : (compile settings moment schema).result = .ok registry) :
    WellFormed settings schema := by
  obtain ⟨builtins, contents, filled, _⟩ := result_eq_ok_iff.mp success
  have sound := Shells.sound_ofSchema (withBuiltins_eq_ok_iff.mpr ⟨builtins, rfl⟩) schema
  obtain ⟨fits, met⟩ := (Contents.exists_fill_iff _ _ _).mp ⟨contents, filled⟩
  obtain ⟨named, siblings, fresh⟩ := names_of_fits placed sound fits met
  refine ⟨builtins, named, siblings, fresh, fun site listed kind inRecord => ?_⟩
  have named' := (forall_declarations_iff placed).mpr named
  have distinct := nodup_allNames
    ((Site.nodup_name_iff fun site declared => (named' site declared).dotFree).mpr siblings)
    builtins fresh
  rw [Shells.ofSchema_shells placed named' distinct] at sound fits
  obtain ⟨owner, scope⟩ : ∃ owner,
      (shellGraph settings schema).scopeOf site.path = some owner := by
    rw [scopeOf_shellGraph distinct listed]
    cases path : site.path with
    | nil => exact absurd path inRecord
    | cons record outer => exact ⟨_, rfl⟩
  exact (exists_describes_iff_propertyFits sound.precede distinct listed scope _).mp
    ((fits site listed).property kind owner scope)

/-- In a well-formed schema no site is at fault. -/
theorem WellFormed.fits (placed : WellPlaced schema) (formed : WellFormed settings schema)
    (camelCaseKeys : Bool) :
    ∀ site ∈ Site.inside [] schema, site.Fits (shellGraph settings schema) camelCaseKeys := by
  have distinct := formed.distinct placed
  have sound := formed.sound placed
  have named := (forall_declarations_iff placed).mpr formed.named
  intro site listed
  have declared (declares : site.node.declares = true) : site ∈ Site.declarations [] schema :=
    List.mem_filter.mpr ⟨listed, declares⟩
  refine ⟨fun declares => named site (declared declares), fun declares => ?_,
    fun kind owner scope => ?_⟩
  · refine ⟨_, _, find?_shellGraph (declared declares),
      getElem?_shellGraph distinct (declared declares), ?_⟩
    exact Site.kind_shell _ _
  · have inRecord : site.path ≠ [] := by
      intro path
      rw [path] at scope
      simp [scopeOf, Name.ofPath?] at scope
    exact (exists_describes_iff_propertyFits sound.precede distinct listed scope _).mpr
      (formed.properties site listed kind inRecord)

/-- The positions of names behind others follow one after the other. -/
private theorem map_idxOf_append {front back : List String} (distinct : (front ++ back).Nodup) :
    back.map (front ++ back).idxOf = List.range' front.length back.length := by
  apply List.ext_getElem
  · simp
  · intro index inRange _
    rw [List.length_map] at inRange
    have position := distinct.idxOf_getElem (front.length + index) (by simpa using inRange)
    rw [List.getElem_append_right (Nat.le_add_right _ _)] at position
    simpa using position

/-- The id of a declaration of the schema is its place in document order, counted behind the
builtin types. -/
theorem map_idxOf_declarations (distinct : (allNames settings schema).Nodup) :
    ((Site.declarations [] schema).map fun site => (allNames settings schema).idxOf site.name) =
      List.range' settings.builtins.length (Site.declarations [] schema).length := by
  have positions := map_idxOf_append distinct
  rw [List.map_map, List.length_map] at positions
  rw [← List.length_map Declaration.name, Settings.map_name_builtins, ← positions]
  rfl

/-- Declared names follow the builtin names in the order of their sites. -/
theorem idxOf_name_getElem (distinct : (allNames settings schema).Nodup) {index : Nat}
    (inRange : index < (Site.declarations [] schema).length) :
    (allNames settings schema).idxOf (Site.declarations [] schema)[index].name =
      settings.builtins.length + index := by
  have position := congrArg (·[index]?) (map_idxOf_declarations distinct)
  simpa only [List.getElem?_map, List.getElem?_eq_getElem inRange, Option.map_some,
    List.getElem?_range' inRange, Option.some.injEq, Nat.one_mul] using position

/-- The shells that a schema of distinct names finds are all that are registered behind the
builtin types, in the same order. -/
theorem ids_shellGraph (distinct : (allNames settings schema).Nodup) :
    Site.ids (shellGraph settings schema) (Site.inside [] schema) =
      List.range' settings.builtins.length (Site.declarations [] schema).length := by
  rw [← map_idxOf_declarations distinct, Site.ids, ← List.filterMap_eq_map]
  exact List.filterMap_congr fun site declared => find?_shellGraph declared

/-- In a well-formed schema no shell is met twice. -/
theorem WellFormed.met (placed : WellPlaced schema) (formed : WellFormed settings schema) :
    (Site.ids (shellGraph settings schema) (Site.inside [] schema)).Nodup := by
  rw [ids_shellGraph (formed.distinct placed)]
  exact List.nodup_range'

/-- A well-formed schema compiles. -/
theorem WellFormed.result (placed : WellPlaced schema) (formed : WellFormed settings schema)
    (moment : Instant) : ∃ registry, (compile settings moment schema).result = .ok registry := by
  obtain ⟨contents, filled⟩ := (Contents.exists_fill_iff _ settings.camelCaseKeys schema).mpr
    ⟨formed.fits placed _, formed.met placed⟩
  refine ⟨contents.registry, result_eq_ok_iff.mpr ⟨formed.builtins, contents, ?_, rfl⟩⟩
  rw [formed.ofSchema placed, filled]

/-- The user types of a registry are those behind the builtin types of its shells. -/
theorem mem_range_iff_isUser {registry : Registry}
    (same : registry.bare = (shellGraph settings schema).bare) (id : Nat) :
    id ∈ List.range' settings.builtins.length (Site.declarations [] schema).length ↔
      ∃ declaration, registry.declarations[id]? = some declaration ∧ declaration.isUser = true := by
  have viaShells : (∃ declaration, registry.declarations[id]? = some declaration ∧
      declaration.isUser = true) ↔
      ∃ shell, (shellGraph settings schema).declarations[id]? = some shell ∧
        shell.isUser = true := by
    constructor
    · rintro ⟨declaration, found, user⟩
      obtain ⟨shell, atShell, bare⟩ := exists_getElem?_of_bare same.symm found
      exact ⟨shell, atShell,
        by rw [← Declaration.isUser_bare, bare, Declaration.isUser_bare, user]⟩
    · rintro ⟨shell, found, user⟩
      obtain ⟨declaration, atId, bare⟩ := exists_getElem?_of_bare same found
      exact ⟨declaration, atId,
        by rw [← Declaration.isUser_bare, bare, Declaration.isUser_bare, user]⟩
  rw [viaShells, List.mem_range'_1, shellGraph]
  by_cases builtin : id < settings.builtins.length
  · rw [List.getElem?_append_left builtin]
    refine ⟨fun inRange => by omega, ?_⟩
    rintro ⟨shell, found, user⟩
    simp [Settings.isUser_builtins (List.mem_of_getElem? found)] at user
  · rw [List.getElem?_append_right (Nat.le_of_not_lt builtin)]
    constructor
    · rintro ⟨_, inRange⟩
      have bound : id - settings.builtins.length < (Site.declarations [] schema).length := by omega
      refine ⟨_, by rw [List.getElem?_map, List.getElem?_eq_getElem bound]; rfl, ?_⟩
      exact Site.isUser_shell _ _
    · rintro ⟨shell, found, _⟩
      have bound := (List.getElem?_eq_some_iff.mp found).1
      rw [List.length_map] at bound
      omega

/-- The two passes agree: a well-placed schema compiles exactly if it is well formed, and whenever
it compiles the first pass has skipped nothing and the second has met every declaration once. -/
theorem compile_succeeds_iff_wellFormed (settings : Settings) (moment : Instant) (schema : Schema)
    (placed : WellPlaced schema) :
    ((∃ registry, (compile settings moment schema).result = .ok registry) ↔
      WellFormed settings schema) ∧
    ∀ registry, (compile settings moment schema).result = .ok registry →
      (Shells.ofSchema ⟨settings.builtins⟩ schema).skips = [] ∧
      (compile settings moment schema).report.diagnostics = [] ∧
      ∃ contents, Contents.ofSchema settings.camelCaseKeys
          (Shells.ofSchema ⟨settings.builtins⟩ schema).registry schema = .ok contents ∧
        contents.registry = registry ∧ contents.filled.Nodup ∧
        ∀ id, id ∈ contents.filled ↔ ∃ declaration,
          registry.declarations[id]? = some declaration ∧ declaration.isUser = true := by
  refine ⟨⟨?_, fun formed => formed.result placed moment⟩, fun registry success => ?_⟩
  · rintro ⟨registry, success⟩
    exact wellFormed_of_result placed success
  · have formed := wellFormed_of_result placed success
    have distinct := formed.distinct placed
    obtain ⟨report, contents, filled, rfl⟩ := report_of_result success
    have visited := Contents.visitAll_of_ofSchema filled
    rw [formed.ofSchema placed] at report visited
    have known := Contents.knows_of_visitAll (knows_nil _) visited
    obtain ⟨met, once⟩ := Contents.met_of_visitAll known rfl visited
    rw [List.nil_append, ids_shellGraph distinct] at met
    refine ⟨by rw [formed.ofSchema placed], by rw [report]; rfl, contents, filled, rfl,
      once List.nodup_nil, fun id => ?_⟩
    rw [met]
    exact mem_range_iff_isUser (Contents.bare_of_visitAll visited) id

end

/-- A record that refers to itself, to an enumeration that is declared inside it and to one that
is declared behind it. -/
def linkedSchema : Schema :=
  [record "Task"
    [make .property "property" [token "next", make .typePrimitive "type" [], token "Task"],
      make .property "property" [token "state", make .typePrimitive "type" [], token "State"],
      make .property "property" [token "level", make .typePrimitive "type" [], token "Level"],
      enumeration "State" ["open", "done"]],
    enumeration "Level" ["low", "high"]]

/-- Types that refer to one another and to themselves are well formed. -/
theorem wellFormed_linkedSchema : WellFormed Settings.default linkedSchema := by
  have fits (name reference : String)
      (known : ∃ candidate ∈ Name.candidates ["Task"] reference,
        candidate ∈ allNames Settings.default linkedSchema) :
      Node.PropertyFits (allNames Settings.default linkedSchema) ["Task"]
        (make .property "property"
          [token name, make .typePrimitive "type" [], token reference]) := by
    have spelled : TypeExpression.Spells (.name (token reference).text)
        [make .typePrimitive "type" [], token reference] := .name rfl rfl
    refine ⟨name, .name reference, [], ⟨token name, _, rfl, rfl, spelled⟩, ?_, ?_⟩
    · simpa [TypeExpression.references] using known
    · simp [OptionsAccepted]
  refine ⟨by decide, by decide, by decide, by decide, ?_⟩
  intro site listed kind inRecord
  simp only [linkedSchema, Site.inside_cons, Site.inside_nil, List.mem_cons, List.mem_append,
    List.not_mem_nil, or_false, record, enumeration, make, Node.members, Node.localName,
    firstChildText?, token, reduceIte, List.tail_cons, reduceCtorEq, if_false, false_or,
    List.head?_cons, Option.map_some, Option.getD_some] at listed
  rcases listed with rfl | (rfl | rfl | rfl | rfl) | rfl
  · simp at inRecord
  · exact fits "next" "Task" (by decide)
  · exact fits "state" "State" (by decide)
  · exact fits "level" "Level" (by decide)
  · simp at kind
  · simp at kind

/-- The linked declarations are well placed and compile without a diagnostic. -/
theorem compile_succeeds_linkedSchema :
    WellPlaced linkedSchema ∧ ∃ registry,
      (compile Settings.default Instant.epoch linkedSchema).result = .ok registry ∧
        (compile Settings.default Instant.epoch linkedSchema).report.diagnostics = [] := by
  have placed : WellPlaced linkedSchema := by decide
  obtain ⟨succeeds, after⟩ :=
    compile_succeeds_iff_wellFormed Settings.default Instant.epoch linkedSchema placed
  obtain ⟨registry, success⟩ := succeeds.mpr wellFormed_linkedSchema
  exact ⟨placed, registry, success, (after registry success).2.1⟩

end SchemaGraph
