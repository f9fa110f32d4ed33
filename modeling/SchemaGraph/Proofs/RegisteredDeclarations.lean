import SchemaGraph.Proofs.AttemptOutcomes

/-!
# What the first pass registers and what it skips

The attempts account for all that the first pass leaves behind, whatever the shape of the trees:
they are made at the declarations that it reaches, in document order, and each registers one user
type or gives one skip. The account says where a type is nested, how it is named and which id it
gets, and for what reason a declaration is skipped.
-/

namespace SchemaGraph

open Node Registry

/-- The attempts account for what the first pass leaves behind. -/
structure AccountsFor (settings : Settings) (schema : Schema) (shells : Shells)
    (log : List Attempt) : Prop where
  /-- Attempts are made at records and enumerations that have children. -/
  located : ∀ attempt ∈ log, attempt.Located schema
  ordered : log.Pairwise fun earlier later => earlier.address < later.address
  /-- The pass reaches all of these but those inside of a skipped one. -/
  reached : ∀ address node, nodeAt? schema address = some node → node.declares = true →
    node.children ≠ [] → ((∃ attempt ∈ log, attempt.address = address) ↔
      ∀ outer ∈ log, outer.skip?.isSome → outer.address <+: address → outer.address = address)
  /-- The parent is what is registered for the node around, if that is a record. -/
  nested : ∀ attempt ∈ log, ∀ id, attempt.parent = some id ↔
    ∃ outer ∈ log, outer.Encloses id attempt
  /-- Ids are given out in document order. -/
  ids : log.filterMap Attempt.id? = List.range' settings.builtins.length
    (shells.registry.size - settings.builtins.length)
  registered : ∀ attempt ∈ log, ∀ id, attempt.outcome = .ok id → attempt.node.HasLocalName ∧
    ∃ declaration, shells.registry.declarations[id]? = some declaration ∧
      declaration.kind = attempt.node.declaredKind ∧ declaration.parent = attempt.parent ∧
      shells.registry.Qualifies attempt.parent attempt.node.localName declaration.name
  /-- No user type is registered but by an attempt. -/
  complete : ∀ (id : TypeId) declaration, shells.registry.declarations[id]? = some declaration →
    declaration.isUser = true → ∃ attempt ∈ log, attempt.outcome = .ok id
  skips : shells.skips = log.filterMap Attempt.skip?
  structural : ∀ attempt ∈ log, (∃ fault position scope,
    attempt.outcome = .error ⟨.structuralParse fault position, scope⟩) ↔
      ¬ attempt.node.HasLocalName
  duplicate : ∀ attempt ∈ log, attempt.node.HasLocalName →
    ((∃ name scope, attempt.outcome = .error ⟨.duplicateType name, scope⟩) ↔
      (∃ earlier ∈ log, earlier.address < attempt.address ∧ (∃ id, earlier.outcome = .ok id) ∧
        earlier.parent = attempt.parent ∧ earlier.node.localName = attempt.node.localName) ∨
      ∃ name ∈ settings.builtinNames,
        shells.registry.Qualifies attempt.parent attempt.node.localName name)
  /-- There is no other reason to skip a declaration. -/
  settled : ∀ attempt ∈ log, attempt.node.HasLocalName → (∃ id, attempt.outcome = .ok id) ∨
    ∃ name scope, attempt.outcome = .error ⟨.duplicateType name, scope⟩
  /-- Different parents or different local names never give the same qualified name. -/
  apart : ∀ attempt ∈ log, ∀ other ∈ log, attempt.node.HasLocalName → other.node.HasLocalName →
    ∀ name, shells.registry.Qualifies attempt.parent attempt.node.localName name →
      shells.registry.Qualifies other.parent other.node.localName name →
      attempt.parent = other.parent ∧ attempt.node.localName = other.node.localName

section Account

variable {settings : Settings} {schema : Schema} {log : List Attempt} {done : Registry}

/-- In document order the attempts in front of one are those at smaller addresses. -/
theorem mem_before_iff {before behind : List Attempt} {attempt other : Attempt}
    (ordered : (before ++ attempt :: behind).Pairwise fun earlier later =>
      earlier.address < later.address) :
    other ∈ before ↔ other ∈ before ++ attempt :: behind ∧ other.address < attempt.address := by
  obtain ⟨_, later, earlier⟩ := List.pairwise_append.mp ordered
  constructor
  · exact fun listed =>
      ⟨List.mem_append_left _ listed, earlier other listed attempt List.mem_cons_self⟩
  · rintro ⟨listed, before⟩
    rcases List.mem_append.mp listed with inFront | here
    · exact inFront
    · rcases List.mem_cons.mp here with rfl | after
      · exact absurd before (List.lt_irrefl _)
      · exact absurd before (List.lt_asymm ((List.pairwise_cons.mp later).1 other after))

/-- The user types of a registry stand behind the builtin types that it keeps. -/
theorem le_of_isUser (keeps : Registry.Keeps ⟨settings.builtins⟩ done) {id : Nat}
    {declaration : Declaration} (found : done.declarations[id]? = some declaration)
    (user : declaration.isUser = true) : settings.builtins.length ≤ id := by
  by_contra before
  have inRange := Nat.lt_of_not_le before
  obtain ⟨kept, keptFound, _, kind, _⟩ := keeps.names id _ (List.getElem?_eq_getElem inRange)
  obtain rfl := Option.some.inj (found.symm.trans keptFound)
  have builtin := Settings.isUser_builtins (List.getElem_mem inRange)
  generalize settings.builtins[id] = original at kind builtin
  cases declaration <;> cases original <;>
    simp_all [Declaration.kind, Declaration.isUser]

/-- What the rules of the first pass derive for a schema accounts for its shells. -/
theorem Shells.Walk.accountsFor (distinct : settings.builtinNames.Nodup)
    (walk : Walk none schema ⟨settings.builtins⟩ log done) :
    AccountsFor settings schema ⟨done, log.filterMap Attempt.skip?⟩ log := by
  have run := walk.run
  have builtinNames : Registry.names ⟨settings.builtins⟩ = settings.builtinNames :=
    settings.map_name_builtins
  have distinctBuiltins : (Registry.names ⟨settings.builtins⟩).Nodup := builtinNames ▸ distinct
  refine
    { located := walk.located
      ordered := walk.ordered
      reached := fun address node found declares children => ⟨?_, fun clear => ?_⟩
      nested := fun attempt listed id => ?_
      ids := ?_
      registered := run.exists_declaration
      complete := fun id declaration found user => ?_
      skips := rfl
      structural := run.structural_iff
      duplicate := fun attempt listed fit => ?_
      settled := run.settled
      apart := fun attempt _ other _ fit fit' name qualifies qualifies' =>
        qualifies.inj (run.nodup_names distinctBuiltins) fit.dotFree fit'.dotFree qualifies' }
  · rintro ⟨attempt, listed, rfl⟩ outer skipped isSkip
    exact walk.pruned outer skipped isSkip attempt listed
  · obtain ⟨attempt, listed, here | ⟨isSkip, around⟩⟩ := walk.covers found declares children
    · exact ⟨attempt, listed, here⟩
    · exact ⟨attempt, listed, clear attempt listed isSkip around⟩
  · rw [walk.nested attempt listed id]
    simp
  · obtain ⟨count, ids, grows⟩ := run.exists_ids
    rw [ids, grows, size, Nat.add_sub_cancel_left]
  · have bound : id < done.size := (List.getElem?_eq_some_iff.mp found).1
    exact run.exists_registered (le_of_isUser run.keeps found user) bound
  · obtain ⟨before, behind, rfl⟩ := List.append_of_mem listed
    rw [run.duplicate_iff distinctBuiltins fit, builtinNames]
    refine or_congr_left (exists_congr fun other => ?_)
    rw [mem_before_iff walk.ordered, and_assoc]

end Account

/-- The first pass over any trees, given distinct builtin types, does what its attempts say. Types
are named after their parent and their local name, nested in the record around them and numbered
in document order. A declaration that is reached is skipped for its structure exactly if it has no
fit name, and otherwise as a duplicate exactly if an earlier one of its parent and its local name
was registered or a builtin type has its qualified name. -/
theorem ofSchema_accountedFor (settings : Settings) (distinct : settings.builtinNames.Nodup)
    (schema : Schema) :
    withBuiltins settings.primitives settings.blob = .ok ⟨settings.builtins⟩ ∧
      AccountsFor settings schema (Shells.ofSchema ⟨settings.builtins⟩ schema)
        (Shells.attempts none schema ⟨settings.builtins⟩) := by
  obtain ⟨done, walk⟩ := Shells.walk_attempts schema (hasScope_none ⟨settings.builtins⟩)
  refine ⟨withBuiltins_eq_ok_iff.mpr ⟨distinct, rfl⟩, ?_⟩
  rw [Shells.ofSchema, walk.declareAll_eq]
  exact walk.accountsFor distinct

/-- A record whose members repeat a name, one of them inside a comment, and declarations of a
dotted name, of the name of a builtin type and of a name that the comment has taken. -/
def tangledSchema : Schema :=
  [record "Order"
    [enumeration "Status" ["open"], make .comment "note" [enumeration "Status" ["draft"]],
      enumeration "Status" ["closed"]],
    record "Order.Item" [record "Lost" []], enumeration "int" [], enumeration "Status" []]

/-- A schema with a wrapper, a dotted name and the name of a builtin type is accounted for. -/
theorem ofSchema_accountedFor_tangledSchema :
    Settings.default.builtinNames.Nodup ∧
      (Shells.attempts none tangledSchema ⟨Settings.default.builtins⟩).map
        (fun attempt => (attempt.address, attempt.parent, attempt.id?)) =
        [([0], none, some 9), ([0, 1], some 9, some 10), ([0, 2, 0], none, some 11),
          ([0, 3], some 9, none), ([1], none, none), ([2], none, none), ([3], none, none)] ∧
      AccountsFor Settings.default tangledSchema
        (Shells.ofSchema ⟨Settings.default.builtins⟩ tangledSchema)
        (Shells.attempts none tangledSchema ⟨Settings.default.builtins⟩) := by
  have distinct : Settings.default.builtinNames.Nodup := by decide
  exact ⟨distinct, by decide, (ofSchema_accountedFor _ distinct tangledSchema).2⟩

end SchemaGraph
