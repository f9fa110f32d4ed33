import SchemaGraph.Proofs.AttemptPlaces

/-!
# The outcomes of the attempts

Where the attempts of the first pass stand is forgotten here, and what becomes of them is read off
the run alone. An attempt succeeds exactly if its declaration has a fit name and its qualified name
is free, and a qualified name says which parent and which local name it was made of. So a fit
declaration is skipped exactly if an earlier one of the same parent and the same local name was
registered, or a builtin type has its name.
-/

namespace SchemaGraph

open Node Registry

namespace Registry

/-- The name is the qualified name of what is declared under a local name inside a parent. -/
def Qualifies (registry : Registry) (parent : Option TypeId) (localName name : String) : Prop :=
  match parent with
  | none => name = localName
  | some id => ∃ outer, registry.declarations[id]? = some outer ∧
      name = Name.within outer.name localName

/-- Qualifying succeeds with the qualified name, and only with it. -/
theorem qualify_eq_ok_iff {registry : Registry} {parent : Option TypeId}
    {localName name : String} :
    registry.qualify parent localName = .ok name ↔ registry.Qualifies parent localName name := by
  cases parent with
  | none => simp [qualify, scopeName, Except.map, Qualifies, eq_comm]
  | some id =>
    rw [qualify, scopeName, nameOf, get, Qualifies]
    cases registry.declarations[id]? <;> simp [Except.map, eq_comm]

/-- A name goes on being qualified as before when more is registered. -/
theorem Keeps.qualifies {registry grown : Registry} (keeps : registry.Keeps grown)
    {parent : Option TypeId} {localName name : String}
    (qualifies : registry.Qualifies parent localName name) :
    grown.Qualifies parent localName name := by
  cases parent with
  | none => exact qualifies
  | some id =>
    obtain ⟨outer, found, named⟩ := qualifies
    obtain ⟨kept, keptFound, same, _⟩ := keeps.names id outer found
    exact ⟨kept, keptFound, same ▸ named⟩

/-- A declaration has at most one qualified name. -/
theorem Qualifies.unique {registry : Registry} {parent : Option TypeId}
    {localName name name' : String} (qualifies : registry.Qualifies parent localName name)
    (qualifies' : registry.Qualifies parent localName name') : name = name' := by
  rw [← qualify_eq_ok_iff] at qualifies qualifies'
  exact Except.ok.inj (qualifies.symm.trans qualifies')

/-- In a registry of distinct names a qualified name is made of one parent and one local name
without dots. -/
theorem Qualifies.inj {registry : Registry} (distinct : registry.names.Nodup)
    {parent parent' : Option TypeId} {localName localName' name : String}
    (free : Name.DotFree localName) (free' : Name.DotFree localName')
    (qualifies : registry.Qualifies parent localName name)
    (qualifies' : registry.Qualifies parent' localName' name) :
    parent = parent' ∧ localName = localName' := by
  cases parent with
  | none =>
    cases parent' with
    | none => exact ⟨rfl, qualifies.symm.trans qualifies'⟩
    | some id' =>
      obtain ⟨outer', _, named'⟩ := qualifies'
      exact absurd (named'.symm.trans qualifies) (Name.within_ne_of_dotFree free _ _)
  | some id =>
    obtain ⟨outer, found, named⟩ := qualifies
    cases parent' with
    | none => exact absurd (named.symm.trans qualifies') (Name.within_ne_of_dotFree free' _ _)
    | some id' =>
      obtain ⟨outer', found', named'⟩ := qualifies'
      obtain ⟨scopes, locals⟩ := Name.within_inj free free' (named.symm.trans named')
      have position := find?_of_getElem? distinct found
      rw [scopes, find?_of_getElem? distinct found'] at position
      exact ⟨position.symm, locals⟩

end Registry

namespace Run

variable {registry done : Registry} {log before behind : List Attempt} {attempt : Attempt}

/-- A run is cut between any two attempts. -/
theorem exists_middle (run : Run registry (before ++ behind) done) :
    ∃ middle, Run registry before middle ∧ Run middle behind done := by
  induction before generalizing registry with
  | nil => exact ⟨registry, .nil, run⟩
  | cons attempt rest ih =>
    cases run with
    | registered registers outcome run =>
      obtain ⟨middle, first, second⟩ := ih run
      exact ⟨middle, .registered registers outcome first, second⟩
    | skipped refuses outcome run =>
      obtain ⟨middle, first, second⟩ := ih run
      exact ⟨middle, .skipped refuses outcome first, second⟩

/-- However many attempts are made, no name is registered twice. -/
theorem nodup_names (run : Run registry log done) (distinct : registry.names.Nodup) :
    done.names.Nodup := by
  induction run with
  | nil => exact distinct
  | registered registers _ _ ih => exact ih (nodup_names_of_register distinct registers.success)
  | skipped _ _ _ ih => exact ih distinct

/-- The ids are given out in the order of the attempts. -/
theorem exists_ids (run : Run registry log done) :
    ∃ count, log.filterMap Attempt.id? = List.range' registry.size count ∧
      done.size = registry.size + count := by
  induction run with
  | nil => exact ⟨0, rfl, rfl⟩
  | @registered attempt _ registry _ _ _ id registers outcome _ ih =>
    obtain ⟨count, given, size⟩ := ih
    obtain ⟨rfl, grows⟩ := size_of_register registers.success
    have first : attempt.id? = some registry.size := Attempt.id?_eq_some_iff.mpr outcome
    refine ⟨count + 1, ?_, by omega⟩
    rw [List.filterMap_cons_some first, given, grows, List.range'_succ]
  | @skipped attempt _ _ _ error scope _ outcome _ ih =>
    have first : attempt.id? = none := by
      rw [Attempt.id?, outcome]
      rfl
    rwa [List.filterMap_cons_none first]

/-- Every id behind those that were there before is given out by an attempt. -/
theorem exists_registered (run : Run registry log done) {id : TypeId}
    (new : registry.size ≤ id) (bound : id < done.size) :
    ∃ attempt ∈ log, attempt.outcome = .ok id := by
  obtain ⟨count, ids, grows⟩ := run.exists_ids
  have given : id ∈ log.filterMap Attempt.id? := by
    rw [ids, List.mem_range'_1]
    exact ⟨new, grows ▸ bound⟩
  obtain ⟨attempt, listed, isId⟩ := List.mem_filterMap.mp given
  exact ⟨attempt, listed, Attempt.id?_eq_some_iff.mp isId⟩

/-- What an attempt has registered stands under its id. -/
theorem exists_declaration (run : Run registry log done) :
    ∀ attempt ∈ log, ∀ id, attempt.outcome = .ok id → attempt.node.HasLocalName ∧
      ∃ declaration, done.declarations[id]? = some declaration ∧
        declaration.kind = attempt.node.declaredKind ∧ declaration.parent = attempt.parent ∧
        done.Qualifies attempt.parent attempt.node.localName declaration.name := by
  induction run with
  | nil => simp
  | @registered attempt _ registry grown done name id registers outcome run ih =>
    refine List.forall_mem_cons.mpr ⟨fun other same => ?_, ih⟩
    obtain rfl := Except.ok.inj (outcome.symm.trans same)
    obtain ⟨kept, found, sameName, sameKind, sameParent⟩ :=
      run.keeps.names id _ (getElem?_registered registers.success)
    rw [emptyShell_name] at sameName
    rw [emptyShell_kind] at sameKind
    rw [emptyShell_parent] at sameParent
    have qualifies := (keeps_of_register registers.success).qualifies
      (qualify_eq_ok_iff.mp registers.qualified)
    exact ⟨registers.fit, kept, found, sameKind, sameParent,
      sameName ▸ run.keeps.qualifies qualifies⟩
  | skipped _ outcome _ ih =>
    refine List.forall_mem_cons.mpr ⟨fun other same => ?_, ih⟩
    simp [outcome] at same

/-- The names that are taken after a run are those that were taken before and those that the
attempts have registered. -/
theorem mem_names_iff (run : Run registry log done) {name : String} :
    name ∈ done.names ↔ name ∈ registry.names ∨ ∃ attempt ∈ log,
      (∃ id, attempt.outcome = .ok id) ∧
        done.Qualifies attempt.parent attempt.node.localName name := by
  induction run with
  | nil => simp
  | @registered attempt _ registry grown done taken id registers outcome run ih =>
    have qualifies := run.keeps.qualifies ((keeps_of_register registers.success).qualifies
      (qualify_eq_ok_iff.mp registers.qualified))
    have here : (∃ id, attempt.outcome = .ok id) ∧
        done.Qualifies attempt.parent attempt.node.localName name ↔ name = taken := by
      constructor
      · exact fun same => same.2.unique qualifies
      · rintro rfl
        exact ⟨⟨id, outcome⟩, qualifies⟩
    rw [ih, names_of_register registers.success, emptyShell_name, List.mem_append,
      List.mem_singleton, List.exists_mem_cons_iff, here, or_assoc]
  | @skipped attempt _ _ done _ _ _ outcome _ ih =>
    have here : ¬ ((∃ id, attempt.outcome = .ok id) ∧
        done.Qualifies attempt.parent attempt.node.localName name) := by
      simp [outcome]
    rw [ih, List.exists_mem_cons_iff, or_iff_right here]

/-- A declaration is refused for its structure exactly if it has no fit name. -/
theorem structural_iff (run : Run registry log done) :
    ∀ attempt ∈ log, (∃ fault position scope,
      attempt.outcome = .error ⟨.structuralParse fault position, scope⟩) ↔
        ¬ attempt.node.HasLocalName := by
  induction run with
  | nil => simp
  | registered registers outcome _ ih =>
    refine List.forall_mem_cons.mpr ⟨?_, ih⟩
    simp [outcome, registers.fit]
  | skipped refuses outcome _ ih =>
    refine List.forall_mem_cons.mpr ⟨?_, ih⟩
    cases refuses with
    | unfit children unread =>
      obtain ⟨notFit, fault, position, rfl⟩ := declarationName_eq_error unread
      have unfit : ¬ Node.HasLocalName _ := fun ⟨_, _, split, fit⟩ =>
        notFit ((List.cons.inj (children.symm.trans split)).1 ▸ fit)
      exact ⟨fun _ => unfit, fun _ => ⟨fault, position, _, outcome⟩⟩
    | taken fit => simp [outcome, fit]

/-- The first attempt of a run, if it is made with a fit name, succeeds if the qualified name is
free and is a duplicate otherwise. -/
theorem settles (run : Run registry (attempt :: behind) done)
    (fit : attempt.node.HasLocalName) :
    ∃ name, registry.Qualifies attempt.parent attempt.node.localName name ∧
      ((name ∉ registry.names ∧ ∃ id, attempt.outcome = .ok id) ∨
        (name ∈ registry.names ∧
          ∃ scope, attempt.outcome = .error ⟨.duplicateType name, scope⟩)) := by
  cases run with
  | @registered _ _ _ _ _ name id registers outcome _ =>
    have fresh := (register_eq_ok_iff.mp registers.success).1
    rw [emptyShell_name] at fresh
    exact ⟨name, qualify_eq_ok_iff.mp registers.qualified, .inl ⟨fresh, id, outcome⟩⟩
  | skipped refuses outcome _ =>
    cases refuses with
    | unfit children unread =>
      obtain ⟨_, _, split, isFit⟩ := fit
      have same := (List.cons.inj (children.symm.trans split)).1
      exact absurd isFit (same ▸ (declarationName_eq_error unread).1)
    | @taken name _ qualified listed =>
      exact ⟨name, qualify_eq_ok_iff.mp qualified, .inr ⟨listed, _, outcome⟩⟩

/-- An attempt with a fit name succeeds or is a duplicate. -/
theorem settled (run : Run registry log done) :
    ∀ attempt ∈ log, attempt.node.HasLocalName → (∃ id, attempt.outcome = .ok id) ∨
      ∃ name scope, attempt.outcome = .error ⟨.duplicateType name, scope⟩ := by
  intro attempt listed fit
  obtain ⟨before, behind, rfl⟩ := List.append_of_mem listed
  obtain ⟨middle, _, second⟩ := run.exists_middle
  obtain ⟨name, _, ⟨_, registered⟩ | ⟨_, taken⟩⟩ := second.settles fit
  · exact .inl registered
  · exact .inr ⟨name, taken⟩

/-- An attempt with a fit name fails exactly if an earlier one has registered the same local name
in the same parent, or if the qualified name was taken before the run. -/
theorem duplicate_iff (run : Run registry (before ++ attempt :: behind) done)
    (distinct : registry.names.Nodup) (fit : attempt.node.HasLocalName) :
    (∃ name scope, attempt.outcome = .error ⟨.duplicateType name, scope⟩) ↔
      (∃ earlier ∈ before, (∃ id, earlier.outcome = .ok id) ∧
        earlier.parent = attempt.parent ∧ earlier.node.localName = attempt.node.localName) ∨
      ∃ name ∈ registry.names, done.Qualifies attempt.parent attempt.node.localName name := by
  -- The run is cut at the attempt, where its name is free or taken. Taken are the names from
  -- before the run and those that the attempts in front have registered.
  obtain ⟨middle, first, second⟩ := run.exists_middle
  obtain ⟨name, qualifies, settled⟩ := second.settles fit
  have taken : (∃ name scope, attempt.outcome = .error ⟨.duplicateType name, scope⟩) ↔
      name ∈ middle.names := by
    rcases settled with ⟨fresh, id, outcome⟩ | ⟨listed, scope, outcome⟩
    · simp [outcome, fresh]
    · exact ⟨fun _ => listed, fun _ => ⟨name, scope, outcome⟩⟩
  have earlier (other : Attempt) (listed : other ∈ before) (id : TypeId)
      (outcome : other.outcome = .ok id) :
      middle.Qualifies other.parent other.node.localName name ↔
        other.parent = attempt.parent ∧ other.node.localName = attempt.node.localName := by
    constructor
    · intro same
      have otherFit := (first.exists_declaration other listed id outcome).1
      exact same.inj (first.nodup_names distinct) otherFit.dotFree fit.dotFree qualifies
    · rintro ⟨sameParent, sameName⟩
      rwa [sameParent, sameName]
  rw [taken, first.mem_names_iff, or_comm]
  refine or_congr ?_ ?_
  · refine exists_congr fun other => and_congr_right fun listed => and_congr_right ?_
    rintro ⟨id, outcome⟩
    exact earlier other listed id outcome
  · constructor
    · exact fun listed => ⟨name, listed, second.keeps.qualifies qualifies⟩
    · rintro ⟨other, listed, same⟩
      rwa [(second.keeps.qualifies qualifies).unique same]

end Run

end SchemaGraph
