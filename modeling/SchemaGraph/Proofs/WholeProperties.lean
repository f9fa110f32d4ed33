import SchemaGraph.Proofs.Decoration
import SchemaGraph.Proofs.FirstFault

/-!
# Properties are added whole or not at all

The second pass adds a property to a record in one step, after all that can go wrong with it. A node
at fault leaves everything as it was, and any other one adds exactly one property to the end of its
record. While the members of a record are filled in, the declarations between them change others
only: each claims a shell that has not been met. So when a record is stopped at a member, it has
exactly the contents that the members in front describe.
-/

namespace SchemaGraph

open Node Registry

/-- The record has one property more, at its end, which becomes the identity if it is designated.
Nothing else differs. -/
def Registry.GainsProperty (registry : Registry) (owner : TypeId) (property : Property)
    (designated : Bool) (grown : Registry) : Prop :=
  ∃ record, registry.declarations[owner]? = some (.record record) ∧
    grown.declarations = registry.declarations.set owner (.record { record with
      properties := record.properties ++ [property]
      identity := if designated then some record.properties.length else record.identity })

/-- The declaration is its shell with what nodes describe that stand inside it. -/
abbrev Registry.FilledFrom (shells : Registry) (camelCaseKeys : Bool) (id : TypeId)
    (nodes : List Node) (shell declaration : Declaration) : Prop :=
  shells.Filled (fun reference type => shells.typeNamed (some id) reference = .ok type)
    camelCaseKeys id nodes shell declaration

/-- A record of the registry gains the property, and nothing else changes. -/
theorem Registry.gainsProperty_onRecord {registry : Registry} {owner : TypeId}
    (record : registry.HasRecord owner) (property : Property) (designated : Bool) :
    registry.GainsProperty owner property designated
      (registry.onRecord owner (RecordType.gain property designated)) := by
  obtain ⟨type, found⟩ := record
  refine ⟨type, found, List.ext_getElem? fun id => ?_⟩
  rw [getElem?_onRecord, List.getElem?_set]
  by_cases here : owner = id
  · subst here
    have inRange := (List.getElem?_eq_some_iff.mp found).1
    rw [found, Option.map_some, if_pos rfl, if_pos rfl, if_pos inRange]
    rfl
  · simp [here]

namespace Contents

variable {camelCaseKeys : Bool} {owner : TypeId} {contents before middle after : Contents}

/-- What is left behind by a part of the second pass, whether it ends or is stopped. -/
def left : Except Stopped Contents → Contents
  | .ok contents => contents
  | .error stopped => stopped.contents

/-- Apart from the owner, nothing changes but declarations that are met for the first time. -/
structure Spares (owner : Option TypeId) (before after : Contents) : Prop where
  bare : after.registry.bare = before.registry.bare
  met : ∀ id ∈ before.filled, id ∈ after.filled
  kept : ∀ id, owner ≠ some id → id ∈ before.filled ∨ id ∉ after.filled →
    after.registry.declarations[id]? = before.registry.declarations[id]?

/-- Nothing is touched if nothing is done. -/
theorem Spares.refl (owner : Option TypeId) (contents : Contents) :
    Spares owner contents contents :=
  ⟨rfl, fun _ met => met, fun _ _ _ => rfl⟩

/-- What is spared by one step and the next is spared by both. -/
theorem Spares.trans {owner : Option TypeId} (first : Spares owner before middle)
    (second : Spares owner middle after) : Spares owner before after := by
  refine ⟨second.bare.trans first.bare, fun id met => second.met id (first.met id met), ?_⟩
  intro id other outside
  have outsideFirst : id ∈ before.filled ∨ id ∉ middle.filled :=
    outside.imp_right fun unmet met => unmet (second.met id met)
  have outsideSecond : id ∈ middle.filled ∨ id ∉ after.filled := outside.imp_left (first.met id)
  rw [second.kept id other outsideSecond, first.kept id other outsideFirst]

/-- Less need be spared. -/
theorem Spares.weaken (spares : Spares none before after) (owner : TypeId) :
    Spares (some owner) before after :=
  ⟨spares.bare, spares.met, fun id _ => spares.kept id (by simp)⟩

/-- What changes a declaration that is met for the first time changes no other one. -/
theorem Spares.fresh {id : TypeId} (first : Spares none before middle) (unmet : id ∉ before.filled)
    (met : id ∈ middle.filled) (second : Spares (some id) middle after) :
    Spares none before after := by
  refine ⟨second.bare.trans first.bare, fun other met => second.met other (first.met other met), ?_⟩
  intro other apart outside
  have notHere : some id ≠ some other := by
    rintro same
    obtain rfl := Option.some.inj same
    exact outside.elim unmet fun unmetAfter => unmetAfter (second.met id met)
  have outsideFirst : other ∈ before.filled ∨ other ∉ middle.filled :=
    outside.imp_right fun unmet met => unmet (second.met other met)
  have outsideSecond : other ∈ middle.filled ∨ other ∉ after.filled :=
    outside.imp_left (first.met other)
  rw [second.kept other notHere outsideSecond, first.kept other apart outsideFirst]

/-- A shell that is claimed has not been met before. -/
theorem claim_fresh {parent : Option TypeId} {kind : DeclarationKind} {name : Node} {id : TypeId}
    {claimed : Contents} (success : contents.claim parent kind name = .ok (id, claimed)) :
    id ∉ contents.filled ∧ claimed = { contents with filled := contents.filled ++ [id] } ∧
      ∃ declaration, contents.registry.declarations[id]? = some declaration ∧
        declaration.kind = kind := by
  unfold claim at success
  split at success
  · simp at success
  · split at success
    · simp at success
    · split at success
      · simp at success
      · split at success
        · simp at success
        · rename_i declaration found
          split at success
          · simp at success
          · rename_i accepted
            rw [not_or, not_not] at accepted
            obtain ⟨rfl, rfl⟩ := Prod.mk.inj (Except.ok.inj success)
            exact ⟨accepted.2, rfl, declaration, get_eq_ok_iff.mp found, accepted.1⟩

/-- To claim a shell spares all records that have been met. -/
theorem spares_claim {parent : Option TypeId} {kind : DeclarationKind} {name : Node} {id : TypeId}
    {claimed : Contents} (success : contents.claim parent kind name = .ok (id, claimed)) :
    Spares none contents claimed := by
  obtain ⟨_, rfl, _⟩ := claim_fresh success
  exact ⟨rfl, fun _ met => List.mem_append_left _ met, fun _ _ _ => rfl⟩

/-- To fill in an enumeration changes no declaration but one met for the first time, even up to a
fault. -/
theorem spares_fillEnumeration (parent : Option TypeId) (node : Node) (contents : Contents) :
    Spares none contents (left (fillEnumeration parent node contents)) := by
  unfold fillEnumeration
  split
  · exact .refl _ _
  · split
    · exact .refl _ _
    · rename_i members _ id claimed claim
      obtain ⟨unmet, rfl, _⟩ := claim_fresh claim
      split
      · exact spares_claim claim
      · refine (spares_claim claim).fresh unmet (List.mem_append_right _ List.mem_cons_self) ?_
        refine ⟨bare_fillValues _ _, fun _ met => met, fun other apart _ => ?_⟩
        have notHere : id ≠ other := fun same => apart (congrArg some same)
        simp [left, withRegistry, getElem?_fillValues, notHere]

/-- A change of the owner spares the others. -/
theorem spares_onRecord {change : RecordType → RecordType}
    (keeps : ∀ record : RecordType,
      (Declaration.record (change record)).bare = (Declaration.record record).bare) :
    Spares (some owner) contents
      (contents.withRegistry (contents.registry.onRecord owner change)) := by
  refine ⟨bare_onRecord keeps, fun _ met => met, fun id apart _ => ?_⟩
  have notHere : owner ≠ id := fun same => apart (congrArg some same)
  simp [withRegistry, getElem?_onRecord, notHere]

/-- To fill in a record spares those that have been met before. -/
theorem spares_fillRecord {parent : Option TypeId} {node : Node}
    (inner : ∀ owner contents,
      Spares (some owner) contents (left (fillMembers camelCaseKeys owner node.members contents))) :
    Spares none contents (left (fillRecord camelCaseKeys parent node contents)) := by
  obtain ⟨kind, text, children, position⟩ := node
  cases children with
  | nil => rw [fillRecord]; exact .refl _ _
  | cons name members =>
    rw [fillRecord]
    cases claim : contents.claim parent .record name with
    | error error => exact .refl _ _
    | ok result =>
      obtain ⟨id, claimed⟩ := result
      obtain ⟨unmet, rfl, _⟩ := claim_fresh claim
      exact (spares_claim claim).fresh unmet (List.mem_append_right _ List.mem_cons_self)
        (inner id _)

/-- Steps that spare what has been met do so one after the other. -/
theorem spares_bind {owner : Option TypeId} {first : Except Stopped Contents}
    {next : Contents → Except Stopped Contents} (spares : Spares owner contents (left first))
    (sparesNext : ∀ reached, Spares owner reached (left (next reached))) :
    Spares owner contents (left (first.bind next)) := by
  cases first with
  | error stopped => exact spares
  | ok reached => exact spares.trans (sparesNext reached)

/-- Filling in members of a record changes no other declaration that had been met. -/
theorem spares_fillMembers (camelCaseKeys : Bool) (owner : TypeId) (members : List Node)
    (contents : Contents) :
    Spares (some owner) contents (left (fillMembers camelCaseKeys owner members contents)) := by
  induction members using forest_induction generalizing owner contents with
  | nil => rw [fillMembers]; exact .refl _ _
  | cons member rest _ inner ih =>
    rw [fillMembers_cons]
    refine spares_bind ?_ (ih owner)
    rw [fillMembers_singleton]
    cases member.kind with
    | record => exact (spares_fillRecord inner).weaken owner
    | enumeration => exact (spares_fillEnumeration _ _ _).weaken owner
    | property =>
      simp only
      cases result : (Change.fillProperty camelCaseKeys owner member).run contents.registry with
      | error error reached =>
        obtain rfl := Change.registry_of_unfilled result
        exact .refl _ _
      | ok done grown =>
        obtain ⟨_, _, _, _, _, _, _, rfl⟩ := Change.run_fillProperty_eq_ok_iff.mp result
        exact spares_onRecord fun _ => rfl
    | comment => exact spares_onRecord fun _ => rfl
    | _ => exact .refl _ _

/-- Filling in nodes of the top level changes nothing that had been met. -/
theorem spares_fillAll {nodes : List Node}
    (success : fillAll camelCaseKeys nodes before = .ok after) : Spares none before after := by
  induction nodes generalizing before with
  | nil => exact Except.ok.inj success ▸ .refl _ _
  | cons node rest ih =>
    rw [fillAll] at success
    split at success
    · rename_i middle filled
      refine Spares.trans ?_ (ih success)
      have first : left (fillTop camelCaseKeys node before) = middle := by rw [filled]; rfl
      rw [← first, fillTop]
      split
      · exact spares_fillRecord fun owner => spares_fillMembers camelCaseKeys owner _
      · exact spares_fillEnumeration _ _ _
      · exact .refl _ _
    · simp at success

/-! ### A record that is stopped at a member -/

/-- A declaration between the members of a record leaves it as it is. -/
theorem getElem?_of_declaration (camelCaseKeys : Bool) {member : Node}
    (declares : member.declares = true) (met : owner ∈ contents.filled) :
    (left (fillMembers camelCaseKeys owner [member] contents)).registry.declarations[owner]? =
      contents.registry.declarations[owner]? := by
  have spares :
      Spares none contents (left (fillMembers camelCaseKeys owner [member] contents)) := by
    rw [fillMembers_singleton]
    cases declares_iff.mp declares with
    | inl kind =>
      simp only [kind]
      exact spares_fillRecord fun owner => spares_fillMembers camelCaseKeys owner _
    | inr kind =>
      simp only [kind]
      exact spares_fillEnumeration _ _ _
  exact spares.kept owner (by simp) (.inl met)

/-- A member that is stopped leaves its record as it is, and a property leaves everything. -/
theorem getElem?_of_stopped {member : Node} {stopped : Stopped} (met : owner ∈ contents.filled)
    (failed : fillMembers camelCaseKeys owner [member] contents = .error stopped) :
    stopped.contents.registry.declarations[owner]? = contents.registry.declarations[owner]? ∧
      (member.kind = .property → stopped.contents = contents) := by
  cases declares : member.declares with
  | true =>
    have kept := getElem?_of_declaration camelCaseKeys declares met
    rw [failed] at kept
    exact ⟨kept, fun kind => by simp [Node.declares, kind] at declares⟩
  | false =>
    have same : stopped.contents = contents := by
      rw [fillMembers_singleton] at failed
      cases kind : member.kind with
      | record | enumeration => simp [Node.declares, kind] at declares
      | property =>
        simp only [kind] at failed
        split at failed
        · simp at failed
        · rename_i unfilled
          rw [← Except.error.inj failed, Change.registry_of_unfilled unfilled]
          rfl
      | _ => simp [kind] at failed
    exact ⟨by rw [same], fun _ => same⟩

section Stops

variable {shells : Registry} {nodes : List Node} {shell declaration : Declaration}

/-- A member fills the record in that it stands in. -/
theorem filled_of_member
    (same : contents.registry.bare = shells.bare) (met : owner ∈ contents.filled)
    (record : shell.kind = .record)
    (atId : contents.registry.declarations[owner]? = some declaration)
    (filled : shells.FilledFrom camelCaseKeys owner nodes shell declaration) {member : Node}
    {next : Contents} (success : fillMembers camelCaseKeys owner [member] contents = .ok next) :
    ∃ filledIn, next.registry.declarations[owner]? = some filledIn ∧
      shells.FilledFrom camelCaseKeys owner (nodes ++ [member]) shell filledIn := by
  cases declares : member.declares with
  | true =>
    -- Another declaration claims another shell.
    have kept := getElem?_of_declaration camelCaseKeys declares met
    rw [success] at kept
    refine ⟨declaration, kept.trans atId, filled.pass ?_ ?_ record⟩ <;> rintro kind <;>
      simp [Node.declares, kind] at declares
  | false =>
    rw [fillMembers_singleton] at success
    cases kind : member.kind with
    | record | enumeration => simp [Node.declares, kind] at declares
    | property =>
      simp only [kind] at success
      split at success
      · rename_i grown result
        obtain rfl := Except.ok.inj success
        obtain ⟨name, behind, property, identity, children, read, _, rfl⟩ :=
          Change.run_fillProperty_eq_ok_iff.mp result
        have described := exists_readProperty_iff.mp ⟨name, behind, children, read⟩
        refine ⟨declaration.onRecord (.gain property identity), ?_, ?_⟩
        · simp [withRegistry, getElem?_onRecord, atId]
        · refine filled.gain kind record (described.mono (fun reference type named => ?_) same.symm)
          rw [← named, typeNamed_of_bare same]
      · simp at success
    | comment =>
      simp only [kind] at success
      obtain rfl := Except.ok.inj success
      refine ⟨declaration.onRecord (.setComment member.commentText), ?_, ?_⟩
      · simp [withRegistry, getElem?_onRecord, atId]
      · exact filled.setComment kind record
    | _ =>
      simp only [kind] at success
      obtain rfl := Except.ok.inj success
      exact ⟨declaration, atId, filled.pass (by simp [kind]) (by simp [kind]) record⟩

/-- If the members of a record are stopped, it is at one of them, and the record is filled in with
those in front. -/
theorem exists_stop_of_fillMembers
    (same : contents.registry.bare = shells.bare) (met : owner ∈ contents.filled)
    (record : shell.kind = .record)
    (atId : contents.registry.declarations[owner]? = some declaration)
    (filled : shells.FilledFrom camelCaseKeys owner nodes shell declaration)
    {members : List Node} {stopped : Stopped}
    (failed : fillMembers camelCaseKeys owner members contents = .error stopped) :
    ∃ front member behind reached filledIn, members = front ++ member :: behind ∧
      fillMembers camelCaseKeys owner front contents = .ok reached ∧
      fillMembers camelCaseKeys owner [member] reached = .error stopped ∧
      stopped.contents.registry.declarations[owner]? = some filledIn ∧
      shells.FilledFrom camelCaseKeys owner (nodes ++ front) shell filledIn := by
  induction members generalizing nodes contents declaration with
  | nil => simp [fillMembers] at failed
  | cons member rest ih =>
    rw [fillMembers_cons] at failed
    cases first : fillMembers camelCaseKeys owner [member] contents with
    | error other =>
      rw [first] at failed
      obtain rfl := Except.error.inj failed
      refine ⟨[], member, rest, contents, declaration, rfl, by rw [fillMembers], first, ?_, ?_⟩
      · rw [(getElem?_of_stopped met first).1, atId]
      · rwa [List.append_nil]
    | ok next =>
      rw [first] at failed
      have spares := spares_fillMembers camelCaseKeys owner [member] contents
      rw [first] at spares
      obtain ⟨filledIn, atNext, filledNext⟩ :=
        filled_of_member same met record atId filled first
      obtain ⟨front, last, behind, reached, final, rfl, passes, stops, atEnd, filledEnd⟩ :=
        ih (spares.bare.trans same) (spares.met owner met) atNext filledNext failed
      refine ⟨member :: front, last, behind, reached, final, rfl, ?_, stops, atEnd, ?_⟩
      · rw [fillMembers_cons, first]
        exact passes
      · rwa [List.append_assoc] at filledEnd

end Stops

/-- In the second pass over the schema the members of the record of an id come next, with these
contents. -/
inductive Opens (settings : Settings) (schema : Schema) : TypeId → List Node → Contents → Prop
  | top {front behind members : List Node} {node name : Node} {reached opened : Contents}
      {id : TypeId} (split : schema = front ++ node :: behind) (kind : node.kind = .record)
      (children : node.children = name :: members)
      (passes : fillAll settings.camelCaseKeys front ⟨shellsOf settings schema, []⟩ = .ok reached)
      (claim : reached.claim none .record name = .ok (id, opened)) :
      Opens settings schema id members opened
  | inner {owner : TypeId} {outer front behind members : List Node} {node name : Node}
      {start reached opened : Contents} {id : TypeId}
      (opens : Opens settings schema owner outer start) (split : outer = front ++ node :: behind)
      (kind : node.kind = .record)
      (children : node.children = name :: members)
      (passes : fillMembers settings.camelCaseKeys owner front start = .ok reached)
      (claim : reached.claim (some owner) .record name = .ok (id, opened)) :
      Opens settings schema id members opened

section Opens

variable {settings : Settings} {schema : Schema} {id : TypeId} {members : List Node}

/-- A record that is claimed is met, and its shell is as it was. -/
theorem shell_of_claim {shells : Registry} {opened : Contents} {parent : Option TypeId}
    {name : Node} (spares : Spares none ⟨shells, []⟩ contents)
    (claim : contents.claim parent .record name = .ok (id, opened)) :
    Spares none ⟨shells, []⟩ opened ∧ id ∈ opened.filled ∧
      ∃ shell : RecordType, shells.declarations[id]? = some (.record shell) ∧
        opened.registry.declarations[id]? = some (.record shell) := by
  obtain ⟨unmet, rfl, shell, found, kind⟩ := claim_fresh claim
  refine ⟨spares.trans (spares_claim claim), List.mem_append_right _ List.mem_cons_self, ?_⟩
  obtain ⟨record, found⟩ := hasRecord_iff_kind.mpr ⟨shell, found, kind⟩
  exact ⟨record, (spares.kept id (by simp) (.inr unmet)).symm.trans found, found⟩

/-- When the members of a record come next, the record is met, and its shell is as it was. -/
theorem Opens.shell (opens : Opens settings schema id members contents) :
    Spares none ⟨shellsOf settings schema, []⟩ contents ∧ id ∈ contents.filled ∧
      ∃ shell : RecordType, (shellsOf settings schema).declarations[id]? = some (.record shell) ∧
        contents.registry.declarations[id]? = some (.record shell) := by
  induction opens with
  | top _ _ _ passes claim => exact shell_of_claim (spares_fillAll passes) claim
  | @inner owner outer front _ _ _ _ start reached _ _ _ _ _ _ passes claim ih =>
    obtain ⟨spares, met, _⟩ := ih
    have inner := spares_fillMembers settings.camelCaseKeys owner front start
    rw [passes] at inner
    exact shell_of_claim (spares.fresh List.not_mem_nil met inner) claim

end Opens

end Contents

/-- A property node is added whole or not at all. If it is refused, for whatever fault, the registry
that is reached is the one that there was, and the members are stopped with the contents that they
had. Otherwise the record of the owner has one property more at its end, which is its identity if an
option behind the type has the name of the identity option, and nothing else differs. So whenever
the members of a record are stopped in the second pass over a schema, it is at one of them, and the
record has exactly the properties that the property nodes in front of it describe, in order, with
the last designated one as its identity. -/
theorem fill_whole_properties (settings : Settings) (schema : Schema) :
    (∀ (camelCaseKeys : Bool) (contents : Contents) (owner : TypeId) (node : Node)
        (rest : List Node), contents.registry.HasRecord owner → node.kind = .property →
      (∀ error reached,
        (Change.fillProperty camelCaseKeys owner node).run contents.registry =
          .error error reached →
        reached = contents.registry ∧
          Contents.fillMembers camelCaseKeys owner (node :: rest) contents =
            .error ⟨error, contents⟩) ∧
      ∀ grown,
        (Change.fillProperty camelCaseKeys owner node).run contents.registry = .ok () grown →
        Contents.fillMembers camelCaseKeys owner (node :: rest) contents =
            Contents.fillMembers camelCaseKeys owner rest (contents.withRegistry grown) ∧
          ∃ property designated, contents.registry.GainsProperty owner property designated grown ∧
            contents.registry.Describes
              (fun reference type => contents.registry.typeNamed (some owner) reference = .ok type)
              camelCaseKeys owner node (property, designated)) ∧
    ∀ id members start stopped, Contents.Opens settings schema id members start →
      Contents.fillMembers settings.camelCaseKeys id members start = .error stopped →
      ∃ front member behind reached, members = front ++ member :: behind ∧
        Contents.fillMembers settings.camelCaseKeys id front start = .ok reached ∧
        Contents.fillMembers settings.camelCaseKeys id [member] reached = .error stopped ∧
        (member.kind = .property → stopped.contents = reached) ∧
        ∃ record readings,
          stopped.contents.registry.declarations[id]? = some (.record record) ∧
          List.Forall₂ ((shellsOf settings schema).Describes
              (fun reference type =>
                (shellsOf settings schema).typeNamed (some id) reference = .ok type)
              settings.camelCaseKeys id)
            (front.filter (·.kind == .property)) readings ∧
          record.properties = readings.map Prod.fst ∧
          record.identity = lastDesignated? (readings.map Prod.snd) := by
  constructor
  · intro camelCaseKeys contents owner node rest record kind
    rw [Contents.fillMembers_cons, Contents.fillMembers_singleton]
    simp only [kind]
    refine ⟨fun error reached refused => ?_, fun grown added => ?_⟩
    · obtain rfl := Change.registry_of_unfilled refused
      rw [refused]
      exact ⟨rfl, rfl⟩
    rw [added]
    obtain ⟨name, behind, property, designated, children, read, _, rfl⟩ :=
      Change.run_fillProperty_eq_ok_iff.mp added
    refine ⟨rfl, property, designated, gainsProperty_onRecord record property designated, ?_⟩
    exact exists_readProperty_iff.mp ⟨name, behind, children, read⟩
  · intro id members start stopped opens failed
    obtain ⟨spares, met, shell, isShell, atId⟩ := opens.shell
    have bare : (shellsOf settings schema).bare = shellsOf settings schema :=
      Shells.bare_ofSchema settings schema
    have bareShell := getElem?_bare (shellsOf settings schema) id
    rw [bare, isShell, Option.map_some, Option.some.injEq] at bareShell
    obtain ⟨front, member, behind, reached, filledIn, split, passes, stops, atEnd, filled⟩ :=
      Contents.exists_stop_of_fillMembers spares.bare met rfl atId (filled_nil bareShell.symm)
        failed
    have sparesFront := Contents.spares_fillMembers settings.camelCaseKeys id front start
    rw [passes] at sparesFront
    refine ⟨front, member, behind, reached, split, passes, stops,
      (Contents.getElem?_of_stopped (sparesFront.met id met) stops).2, ?_⟩
    rw [List.nil_append] at filled
    cases filled with
    | builtin builtin => simp [Declaration.isUser] at builtin
    | @record _ readings _ described => exact ⟨_, readings, atEnd, described, rfl, rfl⟩

/-- A property of a registered type and one of an unknown type. -/
def brokenMembers : List Node :=
  [make .property "property" [token "title", make .typePrimitive "type" [], token "string"],
    stateProperty]

/-- A record with both of them. -/
def brokenSchema : Schema :=
  [record "Task" brokenMembers]

/-- The contents when the members of the record come next. -/
def brokenStart : Contents :=
  ⟨shellsOf Settings.default brokenSchema, [9]⟩

/-- The second property is refused alone, and behind the first one, which the record then has. -/
theorem fill_whole_properties_brokenSchema :
    (∃ error,
      (Change.fillProperty false 9 stateProperty).run brokenStart.registry =
        .error error brokenStart.registry ∧
      Contents.fillMembers false 9 brokenMembers.tail brokenStart = .error ⟨error, brokenStart⟩) ∧
    Contents.Opens Settings.default brokenSchema 9 brokenMembers brokenStart ∧
    ∃ stopped, Contents.fillMembers false 9 brokenMembers brokenStart = .error stopped ∧
      ∃ (record : RecordType) (readings : List (Property × Bool)),
        stopped.contents.registry.declarations[9]? = some (.record record) ∧
        record.properties = readings.map Prod.fst ∧
        record.properties.map Property.name = ["title"] := by
  obtain ⟨alone, behind⟩ := fill_whole_properties Settings.default brokenSchema
  have opens : Contents.Opens Settings.default brokenSchema 9 brokenMembers brokenStart :=
    @Contents.Opens.top _ _ [] _ _ _ _ _ _ _ rfl rfl rfl rfl (by decide)
  refine ⟨?_, opens, ?_⟩
  · obtain ⟨_, _, shell, _, isRecord⟩ := opens.shell
    have refused : (Contents.fillMembers false 9 [stateProperty] brokenStart).toOption = none := by
      decide +kernel
    cases result : (Change.fillProperty false 9 stateProperty).run brokenStart.registry with
    | ok done grown =>
      obtain ⟨filled, _⟩ := (alone false _ 9 _ [] ⟨shell, isRecord⟩ rfl).2 grown result
      rw [filled] at refused
      simp [Contents.fillMembers, Except.toOption] at refused
    | error error reached =>
      obtain ⟨rfl, stopped⟩ := (alone false _ 9 _ [] ⟨shell, isRecord⟩ rfl).1 error reached result
      exact ⟨error, rfl, stopped⟩
  · have titles : ((Contents.left (Contents.fillMembers false 9 brokenMembers
        brokenStart)).registry.record? 9).map (fun record => record.properties.map Property.name) =
          some ["title"] := by decide +kernel
    have refused : (Contents.fillMembers false 9 brokenMembers brokenStart).toOption = none := by
      decide +kernel
    cases result : Contents.fillMembers false 9 brokenMembers brokenStart with
    | ok contents => simp [result, Except.toOption] at refused
    | error stopped =>
      obtain ⟨_, _, _, _, _, _, _, _, record, readings, atEnd, _, properties, _⟩ :=
        behind _ _ _ _ opens result
      refine ⟨stopped, rfl, record, readings, atEnd, properties, ?_⟩
      rw [result] at titles
      simpa [Contents.left, Registry.record?, atEnd, Declaration.record?] using titles

end SchemaGraph
