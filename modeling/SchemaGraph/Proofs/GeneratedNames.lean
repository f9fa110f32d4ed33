import Mathlib.Logic.Relation
import SchemaGraph.Declaration
import SchemaGraph.Proofs.CaseTables
import SchemaGraph.Proofs.MaximalRuns

/-!
# Generated names

A storage key and a display name are put together from the parts of a name, and a part is changed in
its first character only. Because changing the case neither makes a separator nor has to be done
twice, a generated name is a single part that is in its final case: generating a name from it gives
it back. Separators that make no further part do not count.
-/

namespace SchemaGraph

namespace Text

section Parts

variable {expansions : List (Nat × List Nat)} {ranges : List CaseRange}
variable {separates : Char → Bool} {part : List Char}

/-- The first character of a part whose case was changed is in its final case. -/
theorem Settles.exists_head (settles : Settles expansions ranges) (c : Char) (rest : List Char) :
    ∃ first more, mapCase expansions ranges c ++ rest = first :: more ∧
      mapCase expansions ranges first = [first] := by
  obtain ⟨first, more, form⟩ := List.exists_cons_of_ne_nil (settles.mapCase_ne_nil c)
  exact ⟨first, more ++ rest, by rw [form, List.cons_append],
    settles.mapCase_head (by rw [form, List.head?_cons])⟩

/-- A capitalized part begins with something that is in upper case, whatever follows. -/
theorem upper_head_capitalize (part behind : List Char) (nonempty : part ≠ []) :
    ∀ c ∈ (capitalize part ++ behind).head?, upper c = [c] := by
  obtain ⟨c, rest, rfl⟩ := List.exists_cons_of_ne_nil nonempty
  obtain ⟨first, more, form, settled⟩ := settles_upper.exists_head c rest
  rw [capitalize, upper, form]
  rintro _ ⟨⟩
  exact settled

/-- An uncapitalized part begins with something that is in lower case. -/
theorem lower_head_uncapitalize (part behind : List Char) (nonempty : part ≠ []) :
    ∀ c ∈ (uncapitalize part ++ behind).head?, lower c = [c] := by
  obtain ⟨c, rest, rfl⟩ := List.exists_cons_of_ne_nil nonempty
  obtain ⟨first, more, form, settled⟩ := settles_lower.exists_head c rest
  rw [uncapitalize, lower, form]
  rintro _ ⟨⟩
  exact settled

/-- To capitalize changes nothing exactly if the first character is in upper case already. -/
theorem capitalize_eq_self_iff {text : List Char} :
    capitalize text = text ↔ ∀ c ∈ text.head?, upper c = [c] := by
  cases text with
  | nil => simp [capitalize]
  | cons c rest =>
    have first : c :: rest = [c] ++ rest := rfl
    rw [capitalize, first, List.append_left_inj]
    simp

/-- To uncapitalize changes nothing exactly if the first character is in lower case already. -/
theorem uncapitalize_eq_self_iff {text : List Char} :
    uncapitalize text = text ↔ ∀ c ∈ text.head?, lower c = [c] := by
  cases text with
  | nil => simp [uncapitalize]
  | cons c rest =>
    have first : c :: rest = [c] ++ rest := rfl
    rw [uncapitalize, first, List.append_left_inj]
    simp

/-- A text without separators is capitalised as a whole. -/
theorem flatMap_capitalize_runs {text : List Char} (inside : ∀ c ∈ text, separates c = false) :
    (runs separates text).flatMap capitalize = capitalize text := by
  cases text with
  | nil => simp [capitalize]
  | cons c rest => rw [runs_of_isPart ⟨List.cons_ne_nil c rest, inside⟩, List.flatMap_singleton]

variable (only : ∀ c, separates c = true → c = '.' ∨ c = '_')
include only

/-- A part is a part after the case of its first character was changed, as this makes neither dots
nor underscores. -/
theorem Settles.isPart_mapCase (settles : Settles expansions ranges) {c : Char} {rest : List Char}
    (isPart : IsPart separates (c :: rest)) :
    IsPart separates (mapCase expansions ranges c ++ rest) := by
  obtain ⟨_, inside⟩ := isPart
  rw [List.forall_mem_cons] at inside
  obtain ⟨first, more, form, _⟩ := settles.exists_head c rest
  refine ⟨by simp [form], fun d listed => ?_⟩
  rcases List.mem_append.mp listed with changed | unchanged
  · rcases settles.plain_of_mem changed with ⟨noDot, noUnderscore⟩ | rfl
    · rw [Bool.eq_false_iff]
      exact fun separator => (only d separator).elim noDot noUnderscore
    · exact inside.1
  · exact inside.2 d unchanged

/-- A capitalized part is a part: no separator comes in. -/
theorem isPart_capitalize (isPart : IsPart separates part) :
    IsPart separates (capitalize part) := by
  obtain ⟨c, rest, rfl⟩ := List.exists_cons_of_ne_nil isPart.1
  exact settles_upper.isPart_mapCase only isPart

/-- To uncapitalize a part leaves it without separators. -/
theorem isPart_uncapitalize (isPart : IsPart separates part) :
    IsPart separates (uncapitalize part) := by
  obtain ⟨c, rest, rfl⟩ := List.exists_cons_of_ne_nil isPart.1
  exact settles_lower.isPart_mapCase only isPart

/-- Capitalized parts joined together have no separators in them. -/
theorem inside_flatMap_capitalize {parts : List (List Char)}
    (areParts : ∀ part ∈ parts, IsPart separates part) :
    ∀ c ∈ parts.flatMap capitalize, separates c = false := by
  intro c listed
  obtain ⟨part, isOneOf, inPart⟩ := List.mem_flatMap.mp listed
  exact (isPart_capitalize only (areParts part isOneOf)).2 c inPart

end Parts

end Text

namespace Name

open Text

/-! ### Storage keys -/

/-- A text without underscores lies inside of one part. -/
theorem notMem_iff_inside {text : List Char} : '_' ∉ text ↔ ∀ c ∈ text, (c == '_') = false := by
  simp only [beq_eq_false_iff_ne, ne_eq]
  exact ⟨fun absent c listed same => absent (same ▸ listed),
    fun inside listed => inside _ listed rfl⟩

/-- The characters of a key have no underscore among them. -/
theorem inside_camelCase {parts : List (List Char)}
    (areParts : ∀ part ∈ parts, IsPart (· == '_') part) :
    ∀ c ∈ camelCase parts, (c == '_') = false := by
  have only (c : Char) (separator : (c == '_') = true) : c = '.' ∨ c = '_' :=
    .inr (beq_iff_eq.mp separator)
  cases parts with
  | nil => simp [camelCase]
  | cons first others =>
    rw [List.forall_mem_cons] at areParts
    intro c listed
    rcases List.mem_append.mp listed with inFirst | inOthers
    · exact (isPart_uncapitalize only areParts.1).2 c inFirst
    · exact inside_flatMap_capitalize only areParts.2 c inOthers

/-- The parts of a key are what stands between underscores. -/
theorem toList_lowerCamel (name : String) :
    (lowerCamel name).toList = camelCase (runs (· == '_') name.toList) :=
  String.toList_ofList

/-- A key has no underscores. -/
theorem notMem_lowerCamel (name : String) : '_' ∉ (lowerCamel name).toList := by
  rw [toList_lowerCamel, notMem_iff_inside]
  exact inside_camelCase fun _ isOneOf => isPart_of_mem_runs isOneOf

/-- The first character of a key is in its final case. -/
theorem lower_head_lowerCamel (name : String) :
    ∀ c ∈ (lowerCamel name).toList.head?, lower c = [c] := by
  rw [toList_lowerCamel]
  cases parts : runs (· == '_') name.toList with
  | nil => simp [camelCase]
  | cons first others =>
    have isFirst : IsPart (· == '_') first := isPart_of_mem_runs (parts ▸ List.mem_cons_self)
    exact lower_head_uncapitalize first _ isFirst.1

/-- A name without an underscore is its only part. -/
theorem camelCase_runs_of_notMem {text : List Char} (absent : '_' ∉ text) :
    camelCase (runs (· == '_') text) = uncapitalize text := by
  cases text with
  | nil => simp [camelCase, uncapitalize]
  | cons c rest =>
    rw [runs_of_isPart ⟨List.cons_ne_nil c rest, notMem_iff_inside.mp absent⟩, camelCase,
      List.flatMap_nil, List.append_nil]

/-- A name is its own key if it has no underscore and begins with a character in its final case. -/
theorem lowerCamel_eq_self_iff {name : String} :
    lowerCamel name = name ↔ '_' ∉ name.toList ∧ ∀ c ∈ name.toList.head?, lower c = [c] := by
  constructor
  · intro same
    rw [← same]
    exact ⟨notMem_lowerCamel name, lower_head_lowerCamel name⟩
  · rintro ⟨absent, settled⟩
    rw [lowerCamel, camelCase_runs_of_notMem absent, uncapitalize_eq_self_iff.mpr settled,
      String.ofList_toList]

/-- A key is its own key. -/
theorem lowerCamel_lowerCamel (name : String) : lowerCamel (lowerCamel name) = lowerCamel name :=
  lowerCamel_eq_self_iff.mpr ⟨notMem_lowerCamel name, lower_head_lowerCamel name⟩

/-- One name has an underscore more than the other: in front, behind or beside another one. -/
inductive Underscored : String → String → Prop
  | leading (name : String) : Underscored name ("_" ++ name)
  | trailing (name : String) : Underscored name (name ++ "_")
  | repeated (front behind : String) :
      Underscored (front ++ "_" ++ behind) (front ++ "__" ++ behind)

/-- Underscores at the ends, or more of them in between, do not change the parts. -/
theorem Underscored.runs_eq {name longer : String} (more : Underscored name longer) :
    runs (· == '_') longer.toList = runs (· == '_') name.toList := by
  have inFront (text : List Char) : runs (· == '_') ('_' :: text) = runs (· == '_') text :=
    runs_separator (by simp) text
  have cut (front behind : List Char) : runs (· == '_') (front ++ '_' :: behind) =
      runs (· == '_') front ++ runs (· == '_') behind :=
    runs_append_separator (by simp) front behind
  cases more with
  | leading => simpa using inFront name.toList
  | trailing =>
    have behind : runs (· == '_') (name.toList ++ ['_']) = runs (· == '_') name.toList :=
      runs_concat_separator (by simp) name.toList
    simpa using behind
  | repeated front behind =>
    have once := cut front.toList behind.toList
    have twice := cut front.toList ('_' :: behind.toList)
    rw [inFront, ← once] at twice
    simpa using twice

/-- Underscores that leave the parts of a name leave its key. -/
theorem lowerCamel_of_underscored {name other : String}
    (same : Relation.EqvGen Underscored name other) : lowerCamel other = lowerCamel name := by
  induction same with
  | rel name longer more => rw [lowerCamel, more.runs_eq, lowerCamel]
  | refl => rfl
  | symm _ _ _ ih => exact ih.symm
  | trans _ _ _ _ _ first second => exact second.trans first

/-! ### Display names -/

/-- A dot or an underscore separates the parts of a display name. -/
theorem eq_of_separates (c : Char) (separator : (c == '.' || c == '_') = true) :
    c = '.' ∨ c = '_' := by
  simpa using separator

/-- A text without dots and underscores lies inside of one part. -/
theorem notMem_iff_inside_plain {text : List Char} :
    ('.' ∉ text ∧ '_' ∉ text) ↔ ∀ c ∈ text, (c == '.' || c == '_') = false := by
  simp only [Bool.or_eq_false_iff, beq_eq_false_iff_ne, ne_eq]
  constructor
  · rintro ⟨noDot, noUnderscore⟩ c listed
    exact ⟨fun same => noDot (same ▸ listed), fun same => noUnderscore (same ▸ listed)⟩
  · intro inside
    exact ⟨fun listed => (inside _ listed).1 rfl, fun listed => (inside _ listed).2 rfl⟩

/-- The parts of a display name are what stands between dots and underscores. -/
theorem toList_display (name : String) : (display name).toList =
    (runs (fun c => c == '.' || c == '_') name.toList).flatMap capitalize :=
  String.toList_ofList

/-- A display name has neither dots nor underscores. -/
theorem notMem_display (name : String) :
    '.' ∉ (display name).toList ∧ '_' ∉ (display name).toList := by
  rw [toList_display, notMem_iff_inside_plain]
  exact inside_flatMap_capitalize eq_of_separates fun _ isOneOf => isPart_of_mem_runs isOneOf

/-- The first character of a display name is in its final case. -/
theorem upper_head_display (name : String) :
    ∀ c ∈ (display name).toList.head?, upper c = [c] := by
  rw [toList_display]
  cases parts : runs (fun c => c == '.' || c == '_') name.toList with
  | nil => simp
  | cons first others =>
    have isFirst : IsPart (fun c => c == '.' || c == '_') first :=
      isPart_of_mem_runs (parts ▸ List.mem_cons_self)
    exact upper_head_capitalize first _ isFirst.1

/-- A name is its own display name if it is plain and begins with a character in its final case. -/
theorem display_eq_self_iff {name : String} :
    display name = name ↔ ('.' ∉ name.toList ∧ '_' ∉ name.toList) ∧
      ∀ c ∈ name.toList.head?, upper c = [c] := by
  constructor
  · intro same
    rw [← same]
    exact ⟨notMem_display name, upper_head_display name⟩
  · rintro ⟨plain, settled⟩
    rw [display, flatMap_capitalize_runs (notMem_iff_inside_plain.mp plain),
      capitalize_eq_self_iff.mpr settled, String.ofList_toList]

/-- A display name is its own display name. -/
theorem display_display (name : String) : display (display name) = display name :=
  display_eq_self_iff.mpr ⟨notMem_display name, upper_head_display name⟩

/-- The display name of a nested type begins with that of its scope. -/
theorem display_within (scope localName : String) :
    display (within scope localName) = display scope ++ display localName := by
  have dotted : (within scope localName).toList = scope.toList ++ '.' :: localName.toList := by
    simp [within]
  rw [display, dotted, runs_append_separator (by simp), List.flatMap_append, String.ofList_append,
    display, display]

/-- Generated names are canonical. A key in lowerCamelCase has no underscore, is that of every name
that differs in leading, trailing or repeated underscores only, and is its own key. Of all names
those are their own keys that have no underscore and begin with a character which is its own
lower-case form. The display name of what is declared in a scope is that of the scope followed by
that of the local name. No display name has a dot or an underscore, and each is its own display
name. Of all names those are that have neither and begin with a character which is its own
upper-case form. -/
theorem generated_names_canonical :
    (∀ property : Property, property.camelCaseKeys = true →
      '_' ∉ property.key.toList ∧
      (∀ name, Relation.EqvGen Underscored property.name name →
        { property with name := name }.key = property.key) ∧
      { property with name := property.key }.key = property.key ∧
      (property.key = property.name ↔
        '_' ∉ property.name.toList ∧ ∀ c ∈ property.name.toList.head?, lower c = [c])) ∧
    (∀ scope localName : String,
      display (within scope localName) = display scope ++ display localName) ∧
    ∀ name : String, ('.' ∉ (display name).toList ∧ '_' ∉ (display name).toList) ∧
      display (display name) = display name ∧
      (display name = name ↔ ('.' ∉ name.toList ∧ '_' ∉ name.toList) ∧
        ∀ c ∈ name.toList.head?, upper c = [c]) := by
  refine ⟨fun property camel => ?_, display_within, fun name =>
    ⟨notMem_display name, display_display name, display_eq_self_iff⟩⟩
  have key (name : String) : { property with name := name }.key = lowerCamel name := by
    rw [Property.key, if_pos camel]
  have own : property.key = lowerCamel property.name := key property.name
  rw [own]
  exact ⟨notMem_lowerCamel _, fun name same => (key name).trans (lowerCamel_of_underscored same),
    (key _).trans (lowerCamel_lowerCamel _), lowerCamel_eq_self_iff⟩

/-- Characters that change into several letters are among those that a key settles. -/
example : lowerCamel "__Öl_ßtand__" = "ölSStand" := by decide +kernel

end Name

end SchemaGraph
