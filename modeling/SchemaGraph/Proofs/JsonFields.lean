import SchemaGraph.Json.Fields
import SchemaGraph.Proofs.WrittenJson

/-!
# Fields are read as they were written

The fields of a written object have distinct names, and some of them may be left out. Reading them
by their names gives each field, or tells that it is left out. What the readers of fields, items
and words accept is stated here for both directions: what was written is read back, and what is
read was given as the reader wants it.
-/

namespace SchemaGraph.Json

/-- The fields that are not left out. -/
def given (written : List (String × Option Json)) : List (String × Json) :=
  written.filterMap fun field => field.2.map fun value => (field.1, value)

/-- A field without a value is left out. -/
theorem given_cons_none (name : String) (rest : List (String × Option Json)) :
    given ((name, none) :: rest) = given rest := rfl

/-- A field with a value is written. -/
theorem given_cons_some (name : String) (value : Json) (rest : List (String × Option Json)) :
    given ((name, some value) :: rest) = (name, value) :: given rest := rfl

/-- An object of plain values is plain. -/
theorem plain_given {written : List (String × Option Json)}
    (plain : ∀ field ∈ written, ∀ value ∈ field.2, value.Plain) :
    (object (given written)).Plain := by
  refine .object fun field listed => ?_
  obtain ⟨source, isWritten, same⟩ := List.mem_filterMap.mp listed
  obtain ⟨value, isGiven, rfl⟩ := Option.map_eq_some_iff.mp same
  exact plain source isWritten value isGiven

/-- A name that is no field's is not found among those written. -/
theorem filter_given_of_notMem {written : List (String × Option Json)} {name : String}
    (other : name ∉ written.map Prod.fst) : (given written).filter (·.1 == name) = [] := by
  refine List.filter_eq_nil_iff.mpr fun field listed => ?_
  obtain ⟨source, isWritten, same⟩ := List.mem_filterMap.mp listed
  obtain ⟨value, _, rfl⟩ := Option.map_eq_some_iff.mp same
  have differs : source.1 ≠ name := fun isName => other (isName ▸ List.mem_map_of_mem isWritten)
  simpa using differs

/-- A field is found under its name, unless it is left out. -/
theorem field?_given {written : List (String × Option Json)}
    (distinct : (written.map Prod.fst).Nodup) {name : String} {value : Option Json}
    (listed : (name, value) ∈ written) : field? (given written) name = some value := by
  have found : (given written).filter (·.1 == name) = (value.map fun v => (name, v)).toList := by
    induction written with
    | nil => simp at listed
    | cons field rest ih =>
      obtain ⟨first, content⟩ := field
      obtain ⟨differs, distinctRest⟩ := List.nodup_cons.mp distinct
      obtain same | later := List.mem_cons.mp listed
      · obtain ⟨rfl, rfl⟩ := Prod.mk.inj same
        have others := filter_given_of_notMem differs
        cases value with
        | none => simpa [given_cons_none] using others
        | some value => simpa [given_cons_some] using others
      · have other : first ≠ name := by
          rintro rfl
          exact differs (List.mem_map.mpr ⟨_, later, rfl⟩)
        have inRest := ih distinctRest later
        cases content with
        | none => simpa [given_cons_none] using inRest
        | some content => simpa [given_cons_some, other] using inRest
  rw [field?, found]
  cases value <;> rfl

/-- Fields of distinct names are all read back. -/
theorem fields?_given {written : List (String × Option Json)}
    (distinct : (written.map Prod.fst).Nodup) :
    fields? (given written) (written.map Prod.fst) = some (written.map Prod.snd) := by
  have all (part : List (String × Option Json)) (within : ∀ field ∈ part, field ∈ written) :
      fields? (given written) (part.map Prod.fst) = some (part.map Prod.snd) := by
    induction part with
    | nil => rfl
    | cons field rest ih =>
      have first := field?_given distinct (within field List.mem_cons_self)
      have others := ih fun other listed => within other (List.mem_cons_of_mem _ listed)
      simp [fields?, first, others]
  exact all written fun _ listed => listed

/-- A written object has the fields that were given, in their order, and no others. -/
theorem record?_given (written : List (String × Option Json)) (names : List String) (least : Nat)
    (named : written.map Prod.fst = names) (distinct : names.Nodup) :
    record? names least (object (given written)) = some (written.map Prod.snd) := by
  subst named
  exact fields?_given distinct

/-- What is written item by item is read back. -/
theorem each?_map {α : Type} {read : Json → Option α} {write : α → Json} {values : List α}
    (back : ∀ value ∈ values, read (write value) = some value) :
    each? read (values.map write) = some values := by
  induction values with
  | nil => rfl
  | cons value rest ih =>
    have first := back value List.mem_cons_self
    have others := ih fun other listed => back other (List.mem_cons_of_mem _ listed)
    simp [each?, first, others]

/-- Every value that is read from an array is read from an item. -/
theorem exists_of_mem_items? {α : Type} {read : Json → Option α} {json : Json} {values : List α}
    (success : items? read json = some values) {value : α} (listed : value ∈ values) :
    ∃ item, read item = some value := by
  cases json with
  | array items =>
    rw [items?] at success
    induction items generalizing values with
    | nil => simp_all [each?]
    | cons item rest ih =>
      rw [each?] at success
      split at success
      · next first others isFirst areOthers =>
        obtain rfl := Option.some.inj success
        obtain rfl | later := List.mem_cons.mp listed
        · exact ⟨item, isFirst⟩
        · exact ih later areOthers
      · simp at success
  | _ => simp [items?] at success

/-- A number below the limit is read. -/
theorem below?_natural {limit value : Nat} (small : value < limit) :
    below? limit (natural value) = some value := by
  simp [below?, small]

/-- What is read is below the limit. -/
theorem lt_of_below? {limit value : Nat} {json : Json} (success : below? limit json = some value) :
    value < limit := by
  cases json with
  | natural given =>
    rw [below?] at success
    split at success
    · next small => exact Option.some.inj success ▸ small
    · simp at success
  | _ => simp [below?] at success

/-- A number that may be missing is read back. -/
theorem optional?_natural {limit : Nat} {value : Option Nat}
    (small : ∀ number ∈ value, number < limit) :
    optional? (below? limit) (value.map natural) = some value := by
  cases value with
  | none => rfl
  | some number => simp [optional?, below?_natural (small number rfl)]

/-- A text that may be missing is read back. -/
theorem optional?_text (value : Option String) :
    optional? text? (value.map string) = some value := by
  cases value <;> rfl

/-- A value that is there is read as what it is. -/
theorem optional?_of_ne_null {α : Type} {read : Json → Option α} {json : Json}
    (given : json ≠ null) : optional? read (some json) = (read json).map some := by
  cases json <;> simp_all [optional?]

/-- What a reader gives, a field that may be missing gives as well. -/
theorem read_of_optional? {α : Type} {read : Json → Option α} {field : Option Json} {value : α}
    (success : optional? read field = some (some value)) : ∃ json, read json = some value := by
  unfold optional? at success
  split at success
  · simp at success
  · simp at success
  · next json _ => exact ⟨json, by simpa using success⟩

end SchemaGraph.Json
