import Mathlib.Data.List.Infix
import SchemaGraph.Name

/-!
# Paths and qualified names

A path lists the local names of records that stand inside one another, innermost first. The
qualified name of a declaration joins its path with dots. As long as no local name has a dot,
the join loses nothing: the path and the local name can be read off the qualified name.

A reference is tried inside the whole path first, then inside each outer part of it and at last
by itself; `candidates` lists the names that are tried.
-/

namespace SchemaGraph.Name

/-- The qualified name of what is declared under a local name inside the records of a path. -/
def inside : List String → String → String
  | [], localName => localName
  | record :: outer, localName => within (inside outer record) localName

/-- The qualified name of the innermost record of a path. -/
def ofPath? : List String → Option String
  | [] => none
  | record :: outer => some (inside outer record)

/-- The qualified names that a reference from inside a path may stand for, the preferred first. -/
def candidates (path : List String) (reference : String) : List String :=
  path.tails.map (inside · reference)

/-- A text without dots, such as a local name. -/
def DotFree (text : String) : Prop :=
  '.' ∉ text.toList

/-- A scope puts its own prefix in front of the names that the scope around it would try. -/
theorem candidates_cons (record : String) (outer : List String) (reference : String) :
    candidates (record :: outer) reference =
      inside (record :: outer) reference :: candidates outer reference := rfl

/-- A qualified name, character by character. -/
private theorem toList_within (scope localName : String) :
    (within scope localName).toList = scope.toList ++ '.' :: localName.toList := by
  simp [within, String.toList_append]

/-- The last segment of a qualified name is its local name. -/
theorem localPart_within {localName : String} (free : DotFree localName) (scope : String) :
    localPart (within scope localName) = localName := by
  have stops : (within scope localName).toList.reverse.takeWhile (· != '.') =
      localName.toList.reverse := by
    rw [toList_within, List.reverse_append, List.reverse_cons, List.append_assoc]
    rw [List.takeWhile_append_of_pos]
    · simp
    · intro c hc
      have : c ≠ '.' := fun same => free (same ▸ List.mem_reverse.mp hc)
      simpa using this
  rw [localPart, stops, List.reverse_reverse, String.ofList_toList]

/-- Joining a scope with a local name loses neither of them. -/
theorem within_inj {scope scope' localName localName' : String} (free : DotFree localName)
    (free' : DotFree localName') (same : within scope localName = within scope' localName') :
    scope = scope' ∧ localName = localName' := by
  have locals : localName = localName' := by
    rw [← localPart_within free scope, same, localPart_within free' scope']
  subst localName'
  have chars := congrArg String.toList same
  rw [toList_within, toList_within] at chars
  exact ⟨String.toList_inj.mp (List.append_cancel_right chars), rfl⟩

/-- What is declared inside a record has a dot in its qualified name. -/
theorem within_ne_of_dotFree {localName : String} (free : DotFree localName)
    (scope inner : String) : within scope inner ≠ localName := by
  intro same
  apply free
  rw [← same, toList_within]
  simp

/-- A name that is joined in two ways is split at the last dot, or the scope reaches less far. -/
theorem within_eq_within {scope reference outer localName : String} (free : DotFree localName)
    (same : within scope reference = within outer localName) :
    scope = outer ∨ ∃ inner, within scope inner = outer := by
  have chars := congrArg String.toList same
  rw [toList_within, toList_within] at chars
  rcases List.append_eq_append_iff.mp chars with ⟨between, further, rest⟩ | ⟨between, _, rest⟩
  · cases between with
    | nil => exact .inl (String.toList_inj.mp (by simpa using further.symm))
    | cons dot inner =>
      obtain ⟨rfl, _⟩ := List.cons.inj rest
      refine .inr ⟨String.ofList inner, String.toList_inj.mp ?_⟩
      rw [toList_within, String.toList_ofList, further]
  · cases between with
    | nil => exact .inl (String.toList_inj.mp (by simp_all))
    | cons dot inner =>
      obtain ⟨_, rest⟩ := List.cons.inj rest
      exact absurd (rest ▸ List.mem_append_right _ List.mem_cons_self) free

/-- Whatever reaches inside a scope and is a qualified name has the scope as one of the records
around it. -/
theorem exists_suffix_of_within {scope reference localName : String} {path : List String}
    (free : ∀ name ∈ localName :: path, DotFree name)
    (same : within scope reference = inside path localName) :
    ∃ record outer, record :: outer <:+ path ∧ inside outer record = scope := by
  induction path generalizing reference localName with
  | nil => exact absurd same (within_ne_of_dotFree (free localName List.mem_cons_self) _ _)
  | cons record outer ih =>
    rcases within_eq_within (free localName List.mem_cons_self) same with rfl | ⟨inner, further⟩
    · exact ⟨record, outer, List.suffix_refl _, rfl⟩
    · obtain ⟨around, beyond, suffix, named⟩ :=
        ih (fun name listed => free name (List.mem_cons_of_mem _ listed)) further
      exact ⟨around, beyond, suffix.trans (List.suffix_cons _ _), named⟩

/-- A reference keeps the name that it stands for if no name is added inside a scope around it. -/
theorem find?_candidates_of_apart {names names' path : List String} {reference name : String}
    (grows : ∀ name ∈ names, name ∈ names')
    (apart : ∀ record outer, record :: outer <:+ path →
      within (inside outer record) reference ∈ names' →
        within (inside outer record) reference ∈ names)
    (found : (candidates path reference).find? (· ∈ names) = some name) :
    (candidates path reference).find? (· ∈ names') = some name := by
  induction path with
  | nil =>
    have listed : name ∈ names := by simpa using List.find?_some found
    obtain rfl : name = reference := by
      simpa [candidates, inside] using List.mem_of_find?_eq_some found
    simp [candidates, grows name listed, inside]
  | cons record outer ih =>
    rw [candidates_cons] at found ⊢
    have same : decide (inside (record :: outer) reference ∈ names) =
        decide (inside (record :: outer) reference ∈ names') :=
      decide_eq_decide.mpr ⟨grows _, apart record outer (List.suffix_refl _)⟩
    rw [List.find?_cons] at found ⊢
    rw [← same]
    split at found
    · exact found
    · exact ih (fun around beyond suffix => apart around beyond (suffix.trans
        (List.suffix_cons _ _))) found

/-- Dotted joining is injective on paths of any depth. -/
theorem inside_inj {path path' : List String} {localName localName' : String}
    (free : ∀ name ∈ localName :: path, DotFree name)
    (free' : ∀ name ∈ localName' :: path', DotFree name)
    (same : inside path localName = inside path' localName') :
    path = path' ∧ localName = localName' := by
  induction path generalizing path' localName localName' with
  | nil =>
    cases path' with
    | nil => exact ⟨rfl, same⟩
    | cons record' outer' =>
      exact absurd same.symm (within_ne_of_dotFree (free localName List.mem_cons_self) _ _)
  | cons record outer ih =>
    cases path' with
    | nil => exact absurd same (within_ne_of_dotFree (free' localName' List.mem_cons_self) _ _)
    | cons record' outer' =>
      obtain ⟨scopes, locals⟩ := within_inj (free localName List.mem_cons_self)
        (free' localName' List.mem_cons_self) same
      obtain ⟨outers, records⟩ := ih (fun name hname => free name (List.mem_cons_of_mem _ hname))
        (fun name hname => free' name (List.mem_cons_of_mem _ hname)) scopes
      exact ⟨by rw [outers, records], locals⟩

end SchemaGraph.Name
