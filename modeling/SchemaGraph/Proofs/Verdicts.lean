import SchemaGraph.Proofs.Filling

/-!
# When the second pass succeeds

Each site gets a verdict of its own against the shells: a declaration must have a fit name and
find a shell of its kind, and a property of a record must be described. The second pass succeeds
exactly if no site is at fault and no shell is met twice, whatever the shape of the schema.
-/

namespace SchemaGraph

open Node Registry

namespace Site

/-- The site has no fault of its own: its declaration finds its shell, its property is described. -/
structure Fits (shells : Registry) (camelCaseKeys : Bool) (site : Site) : Prop where
  named : site.node.declares = true → site.node.HasLocalName
  shell : site.node.declares = true → ∃ id declaration, shells.find? site.name = some id ∧
    shells.declarations[id]? = some declaration ∧ declaration.kind = site.node.declaredKind
  property : site.node.kind = .property → ∀ owner, shells.scopeOf site.path = some owner →
    ∃ reading, shells.Describes
      (fun reference type => shells.typeNamed (some owner) reference = .ok type)
      camelCaseKeys owner site.node reading

/-- The ids of the shells that the sites find, in order. -/
def ids (shells : Registry) (sites : List Site) : List TypeId :=
  (sites.filter fun site => site.node.declares).filterMap fun site => shells.find? site.name

/-- The ids at sites side by side are put together. -/
theorem ids_append (shells : Registry) (first second : List Site) :
    ids shells (first ++ second) = ids shells first ++ ids shells second := by
  simp [ids]

/-- A declaration has the id that is found under its name. -/
theorem ids_singleton {shells : Registry} {site : Site} {id : TypeId}
    (declares : site.node.declares = true) (found : shells.find? site.name = some id) :
    ids shells [site] = [id] := by
  simp [ids, declares, found]

/-- A site that declares nothing has no id. -/
theorem ids_singleton_silent {shells : Registry} {site : Site}
    (silent : site.node.declares = false) : ids shells [site] = [] := by
  simp [ids, silent]

/-- Registries of the same shells have the same ids at the sites. -/
theorem ids_of_bare {shells shells' : Registry} (same : shells'.bare = shells.bare)
    (sites : List Site) : ids shells' sites = ids shells sites := by
  rw [ids, ids, find?_of_bare same]

/-- What fits one of them fits the other. -/
theorem Fits.of_bare {shells shells' : Registry} (same : shells'.bare = shells.bare)
    {camelCaseKeys : Bool} {site : Site} (fits : site.Fits shells camelCaseKeys) :
    site.Fits shells' camelCaseKeys := by
  refine ⟨fits.named, fun declares => ?_, fun kind owner scope => ?_⟩
  · obtain ⟨id, declaration, found, atId, isKind⟩ := fits.shell declares
    obtain ⟨declaration', atId', bare⟩ := exists_getElem?_of_bare same atId
    refine ⟨id, declaration', by rw [find?_of_bare same, found], atId', ?_⟩
    rw [← isKind, ← Declaration.kind_bare, bare, Declaration.kind_bare]
  · rw [scopeOf_of_bare same] at scope
    obtain ⟨reading, describes⟩ := fits.property kind owner scope
    refine ⟨reading, describes.mono (fun reference type named => ?_) same⟩
    rw [← named, typeNamed_of_bare same]

/-- The record of a fitting site is known to what stands inside it. -/
theorem Fits.knows {shells : Registry} {camelCaseKeys : Bool} {path : List String} {node : Node}
    (fits : Fits shells camelCaseKeys ⟨path, node⟩) (kind : node.kind = .record) :
    shells.Knows (node.localName :: path) := by
  obtain ⟨id, declaration, found, atId, isKind⟩ := fits.shell (declares_of_record kind)
  refine knows_of_scopeOf found (hasRecord_iff_kind.mpr ⟨declaration, atId, ?_⟩)
  rw [isKind, declaredKind, if_pos kind]

/-- A declaration that finds its shell does not have the name of a builtin type. -/
theorem Fits.notMem_builtinNames {settings : Settings} {shells : Registry} {camelCaseKeys : Bool}
    {site : Site} (fits : site.Fits shells camelCaseKeys) (sound : Shells.Sound settings shells)
    (declares : site.node.declares = true) : site.name ∉ settings.builtinNames := by
  intro builtin
  obtain ⟨id, shell, found, atId, kind⟩ := fits.shell declares
  obtain ⟨other, declaration, found', atOther, notUser⟩ := sound.find?_builtin builtin
  obtain rfl := Option.some.inj (found.symm.trans found')
  obtain rfl := Option.some.inj (atId.symm.trans atOther)
  simp [isUser_of_declaredKind kind] at notUser

/-- A list without repetitions among its images has none itself, if every element has an image. -/
private theorem nodup_of_filterMap {α β : Type} {f : α → Option β} {list : List α}
    (distinct : (list.filterMap f).Nodup) (total : ∀ element ∈ list, (f element).isSome) :
    list.Nodup := by
  induction list with
  | nil => exact List.nodup_nil
  | cons element rest ih =>
    rw [List.forall_mem_cons] at total
    obtain ⟨value, found⟩ := Option.isSome_iff_exists.mp total.1
    rw [List.filterMap_cons_some found, List.nodup_cons] at distinct
    refine List.nodup_cons.mpr ⟨fun listed => distinct.1 ?_, ih distinct.2 total.2⟩
    exact List.mem_filterMap.mpr ⟨element, listed, found⟩

/-- Declarations that find different shells have different names. -/
theorem nodup_name_of_ids {shells : Registry} {camelCaseKeys : Bool} {sites : List Site}
    (fits : ∀ site ∈ sites, site.Fits shells camelCaseKeys) (met : (ids shells sites).Nodup) :
    ((sites.filter fun site => site.node.declares).map name).Nodup := by
  refine nodup_of_filterMap (f := shells.find?) ?_ ?_
  · rwa [List.filterMap_map]
  · intro name listed
    obtain ⟨site, declared, rfl⟩ := List.mem_map.mp listed
    obtain ⟨inSites, declares⟩ := List.mem_filter.mp declared
    obtain ⟨id, _, found, _⟩ := (fits site inSites).shell declares
    rw [found]
    rfl

/-- If no site is at fault, all sites stand inside known records. -/
theorem knows_of_fits {shells : Registry} {camelCaseKeys : Bool} {path : List String}
    {nodes : List Node} (knows : shells.Knows path)
    (fits : ∀ site ∈ inside path nodes, site.Fits shells camelCaseKeys) :
    ∀ site ∈ inside path nodes, shells.Knows site.path := by
  induction nodes using forest_induction generalizing path with
  | nil => simp [inside]
  | cons node rest _ members ih =>
    rw [inside_cons, List.forall_mem_cons, List.forall_mem_append] at fits ⊢
    obtain ⟨here, inner, behind⟩ := fits
    refine ⟨knows, ?_, ih knows behind⟩
    by_cases kind : node.kind = .record
    · rw [if_pos kind] at inner ⊢
      exact members (here.knows kind) inner
    · simp [kind]

end Site

namespace Contents

variable {camelCaseKeys : Bool} {site : Site} {contents done : Contents}

/-- A site that has been visited fits the shells. -/
theorem Visited.fits (visited : Visited camelCaseKeys site contents done) :
    site.Fits contents.registry camelCaseKeys := by
  cases visited with
  | record kind named found shell =>
    obtain ⟨declaration, atId, isRecord⟩ := hasRecord_iff_kind.mp shell
    refine ⟨fun _ => named, fun _ => ⟨_, declaration, found, atId, ?_⟩, by simp [kind]⟩
    rw [isRecord, declaredKind, if_pos kind]
  | enumeration kind named found shell =>
    refine ⟨fun _ => named, fun _ => ⟨_, _, found, shell, ?_⟩, by simp [kind]⟩
    rw [declaredKind, if_neg (by simp [kind])]
    rfl
  | property kind scope children read =>
    refine ⟨by simp [Node.declares, kind], by simp [Node.declares, kind], fun _ owner scope' => ?_⟩
    obtain rfl := Option.some.inj (scope.symm.trans scope')
    exact ⟨_, exists_readProperty_iff.mp ⟨_, _, children, read⟩⟩
  | comment kind =>
    exact ⟨by simp [Node.declares, kind], by simp [Node.declares, kind], by simp [kind]⟩
  | silent silent outside =>
    refine ⟨by simp [silent], by simp [silent], fun kind owner scope => ?_⟩
    rw [outside (.inl kind)] at scope
    simp at scope

/-- A visit meets the shell of the site, which has not been met before, and no other. -/
theorem Visited.met (visited : Visited camelCaseKeys site contents done) :
    done.filled = contents.filled ++ Site.ids contents.registry [site] ∧
      ∀ id ∈ Site.ids contents.registry [site], id ∉ contents.filled := by
  cases visited with
  | record kind _ found _ fresh =>
    rw [Site.ids_singleton (declares_of_record kind) found]
    simpa using fresh
  | enumeration kind _ found _ fresh =>
    rw [Site.ids_singleton (declares_of_enumeration kind) found]
    simpa using fresh
  | silent silent =>
    rw [Site.ids_singleton_silent silent]
    simp
  | property kind | comment kind =>
    rw [Site.ids_singleton_silent (by simp [Node.declares, kind])]
    simp [withRegistry]

/-- Visits add no shell twice to those that were filled in. -/
theorem Visited.nodup (visited : Visited camelCaseKeys site contents done)
    (start : contents.filled.Nodup) : done.filled.Nodup := by
  obtain ⟨met, fresh⟩ := visited.met
  rw [met, List.nodup_append]
  refine ⟨start, ?_, fun id earlier other listed both => fresh other listed (both ▸ earlier)⟩
  cases declares : site.node.declares with
  | false => simp [Site.ids_singleton_silent declares]
  | true => cases found : contents.registry.find? site.name <;> simp [Site.ids, declares, found]

/-- A site without a fault of its own is visited if its shell has not been met. -/
theorem exists_visited (fits : site.Fits contents.registry camelCaseKeys)
    (fresh : ∀ id ∈ Site.ids contents.registry [site], id ∉ contents.filled) :
    ∃ done, Visited camelCaseKeys site contents done := by
  cases declares : site.node.declares with
  | true =>
    obtain ⟨id, declaration, found, atId, isKind⟩ := fits.shell declares
    rw [Site.ids_singleton declares found, List.forall_mem_singleton] at fresh
    rw [declaredKind] at isKind
    split at isKind
    · rename_i kind
      exact ⟨_, .record kind (fits.named declares) found
        (hasRecord_iff_kind.mpr ⟨declaration, atId, isKind⟩) fresh⟩
    · have kind : site.node.kind = .enumeration := by simp_all [Node.declares]
      cases declaration with
      | enumeration type =>
        exact ⟨_, .enumeration kind (fits.named declares) found atId fresh⟩
      | _ => simp [Declaration.kind] at isKind
  | false =>
    cases scope : contents.registry.scopeOf site.path with
    | none => exact ⟨contents, .silent declares fun _ => scope⟩
    | some owner =>
      by_cases property : site.node.kind = .property
      · obtain ⟨⟨property', identity⟩, describes⟩ := fits.property property owner scope
        obtain ⟨name, nodes, children, read⟩ := exists_readProperty_iff.mpr describes
        exact ⟨_, .property property scope children read⟩
      · by_cases comment : site.node.kind = .comment
        · exact ⟨_, .comment comment scope⟩
        · exact ⟨contents, .silent declares fun kind => absurd kind (by simp [property, comment])⟩

/-- The shells that were met are those of the declarations visited, each of them once. -/
theorem met_of_visitAll {shells : Registry} {sites : List Site}
    (known : ∀ site ∈ sites, shells.Knows site.path)
    (same : contents.registry.bare = shells.bare)
    (success : visitAll camelCaseKeys sites contents = .ok done) :
    done.filled = contents.filled ++ Site.ids shells sites ∧
      (contents.filled.Nodup → done.filled.Nodup) := by
  induction sites generalizing contents with
  | nil =>
    obtain rfl := Except.ok.inj success
    simp [Site.ids]
  | cons site rest ih =>
    rw [List.forall_mem_cons] at known
    rw [visitAll] at success
    split at success
    · rename_i middle first
      have visited := (visit_eq_ok_iff (known.1.of_bare same)).mp first
      obtain ⟨met, _⟩ := visited.met
      rw [Site.ids_of_bare same] at met
      obtain ⟨later, distinct⟩ := ih known.2 ((bare_of_visit first).trans same) success
      refine ⟨?_, fun start => distinct (visited.nodup start)⟩
      rw [later, met, List.append_assoc, ← Site.ids_append, List.singleton_append]
    · simp at success

/-- Sites inside known records are visited without a fault exactly if each of them fits and no
shell is met twice. -/
theorem exists_visitAll_iff {shells : Registry} {sites : List Site}
    (known : ∀ site ∈ sites, shells.Knows site.path)
    (same : contents.registry.bare = shells.bare) (start : contents.filled.Nodup) :
    (∃ done, visitAll camelCaseKeys sites contents = .ok done) ↔
      (∀ site ∈ sites, site.Fits shells camelCaseKeys) ∧
        (contents.filled ++ Site.ids shells sites).Nodup := by
  induction sites generalizing contents with
  | nil => simpa [visitAll, Site.ids] using start
  | cons site rest ih =>
    have split : Site.ids shells (site :: rest) =
        Site.ids shells [site] ++ Site.ids shells rest := by
      rw [← Site.ids_append, List.singleton_append]
    rw [List.forall_mem_cons] at known
    rw [List.forall_mem_cons, split, ← List.append_assoc]
    have visits {middle : Contents} : visit camelCaseKeys site contents = .ok middle ↔
        Visited camelCaseKeys site contents middle := visit_eq_ok_iff (known.1.of_bare same)
    constructor
    · rintro ⟨done, success⟩
      rw [visitAll] at success
      split at success
      · rename_i middle first
        have visited := visits.mp first
        obtain ⟨met, _⟩ := visited.met
        have rest := (ih known.2 ((bare_of_visit first).trans same) (visited.nodup start)).mp
          ⟨done, success⟩
        rw [met, Site.ids_of_bare same] at rest
        exact ⟨⟨visited.fits.of_bare same.symm, rest.1⟩, rest.2⟩
      · simp at success
    · rintro ⟨⟨here, behind⟩, distinct⟩
      have fresh : ∀ id ∈ Site.ids contents.registry [site], id ∉ contents.filled := by
        intro id listed met
        rw [Site.ids_of_bare same] at listed
        exact (List.nodup_append.mp (List.nodup_append.mp distinct).1).2.2 id met id listed rfl
      obtain ⟨middle, visited⟩ := exists_visited (here.of_bare same) fresh
      have first := visits.mpr visited
      have next := ih known.2 ((bare_of_visit first).trans same) (visited.nodup start)
      rw [visited.met.1, Site.ids_of_bare same] at next
      rw [visitAll, first]
      exact next.mpr ⟨behind, distinct⟩

/-- If the sites in front of a site are visited without a fault, it stands inside known records. -/
theorem knows_of_split {path : List String} {nodes : List Node} {front behind : List Site}
    (split : Site.inside path nodes = front ++ site :: behind)
    (knows : contents.registry.Knows path)
    (success : visitAll camelCaseKeys front contents = .ok done) :
    contents.registry.Knows site.path := by
  -- The record around the site has been visited, and it stands inside known records itself.
  induction count : front.length using Nat.strong_induction_on
    generalizing front behind site done with
  | _ count ih =>
    cases Site.exists_enclosing_before split with
    | inl top => rwa [top]
    | inr inner =>
      obtain ⟨outer, listed, kind, around⟩ := inner
      obtain ⟨earlier, later, rfl⟩ := List.append_of_mem listed
      obtain ⟨middle, first, second⟩ := visitAll_append_eq_ok_iff.mp success
      obtain ⟨_, visited, _⟩ := visitAll_cons_eq_ok_iff.mp second
      rw [List.append_assoc, List.cons_append] at split
      rw [List.length_append, List.length_cons] at count
      have outside := ih earlier.length (by omega) split first rfl
      have same := bare_of_visitAll first
      have fits := ((visit_eq_ok_iff (outside.of_bare same)).mp visited).fits.of_bare same.symm
      exact around ▸ fits.knows kind

/-- All sites that are visited without a fault stand inside known records. -/
theorem knows_of_front {path : List String} {nodes : List Node} {front behind : List Site}
    (split : Site.inside path nodes = front ++ behind) (knows : contents.registry.Knows path)
    (success : visitAll camelCaseKeys front contents = .ok done) :
    ∀ site ∈ front, contents.registry.Knows site.path := by
  intro site listed
  obtain ⟨earlier, later, rfl⟩ := List.append_of_mem listed
  obtain ⟨_, first, _⟩ := visitAll_append_eq_ok_iff.mp success
  rw [List.append_assoc, List.cons_append] at split
  exact knows_of_split split knows first

/-- After visits without a fault the records around all of the sites are known. -/
theorem knows_of_visitAll {path : List String} {nodes : List Node}
    (knows : contents.registry.Knows path)
    (success : visitAll camelCaseKeys (Site.inside path nodes) contents = .ok done) :
    ∀ site ∈ Site.inside path nodes, contents.registry.Knows site.path :=
  knows_of_front (List.append_nil _).symm knows success

/-- The second pass succeeds exactly if no site is at fault and no shell is met twice. -/
theorem exists_fill_iff (shells : Registry) (camelCaseKeys : Bool) (schema : Schema) :
    (∃ done, visitAll camelCaseKeys (Site.inside [] schema) ⟨shells, []⟩ = .ok done) ↔
      (∀ site ∈ Site.inside [] schema, site.Fits shells camelCaseKeys) ∧
        (Site.ids shells (Site.inside [] schema)).Nodup := by
  constructor
  · rintro ⟨done, success⟩
    exact (exists_visitAll_iff (knows_of_visitAll (knows_nil _) success) rfl List.nodup_nil).mp
      ⟨done, success⟩
  · rintro ⟨fits, distinct⟩
    exact (exists_visitAll_iff (Site.knows_of_fits (knows_nil _) fits) rfl List.nodup_nil).mpr
      ⟨fits, distinct⟩

end Contents

/-- What the second pass fills in is what the visits of all sites fill in. -/
theorem Contents.visitAll_of_ofSchema {camelCaseKeys : Bool} {shells : Registry} {schema : Schema}
    {contents : Contents} (success : ofSchema camelCaseKeys shells schema = .ok contents) :
    visitAll camelCaseKeys (Site.inside [] schema) ⟨shells, []⟩ = .ok contents := by
  rw [ofSchema] at success
  rw [← fillAll_eq_visitAll, success]
  rfl

/-- A compile succeeds if the builtin types can be registered and the second pass succeeds on the
shells that the first one leaves behind. -/
theorem result_eq_ok_iff {settings : Settings} {moment : Instant} {schema : Schema}
    {registry : Registry} :
    (compile settings moment schema).result = .ok registry ↔
      settings.builtinNames.Nodup ∧
        ∃ contents, Contents.visitAll settings.camelCaseKeys (Site.inside [] schema)
          ⟨(Shells.ofSchema ⟨settings.builtins⟩ schema).registry, []⟩ = .ok contents ∧
            contents.registry = registry := by
  rw [compile]
  cases builtins : withBuiltins settings.primitives settings.blob with
  | error error =>
    have shared : ¬ settings.builtinNames.Nodup := fun distinct => by
      rw [withBuiltins_eq_ok_iff.mpr ⟨distinct, rfl⟩] at builtins
      simp at builtins
    simp [Compilation.failed, shared]
  | ok registered =>
    obtain ⟨distinct, rfl⟩ := withBuiltins_eq_ok_iff.mp builtins
    simp only [distinct, true_and, ← Contents.fillAll_eq_visitAll, Contents.ofSchema]
    cases Contents.fillAll settings.camelCaseKeys schema
        ⟨(Shells.ofSchema ⟨settings.builtins⟩ schema).registry, []⟩ with
    | error halt => simp [Compilation.failed, Except.mapError]
    | ok contents => simp [Except.mapError]

/-- The report of a compile that succeeds is that of its first pass. -/
theorem report_of_result {settings : Settings} {moment : Instant} {schema : Schema}
    {registry : Registry} (success : (compile settings moment schema).result = .ok registry) :
    (compile settings moment schema).report =
        (Shells.ofSchema ⟨settings.builtins⟩ schema).report moment ∧
      ∃ contents, Contents.ofSchema settings.camelCaseKeys
        (Shells.ofSchema ⟨settings.builtins⟩ schema).registry schema = .ok contents ∧
          contents.registry = registry := by
  obtain ⟨distinct, _⟩ := result_eq_ok_iff.mp success
  rw [compile, withBuiltins_eq_ok_iff.mpr ⟨distinct, rfl⟩] at success ⊢
  simp only at success ⊢
  split at success
  · rename_i contents filled
    exact ⟨rfl, contents, filled, Except.ok.inj success⟩
  · simp [Compilation.failed] at success

end SchemaGraph
