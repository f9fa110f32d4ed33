import Mathlib.Data.Nat.Bitwise
import SchemaGraph.Text.LetterCase

/-!
# Case mappings settle after one step

The tables of the case mappings are compared as sets of code points, held as the bits of a number.
Nothing that stands first in a mapped form is itself mapped, so a character that has been put in a
case stays as it is when it is put in that case again. No mapped form is empty, and none has a dot
or an underscore in it.
-/

namespace SchemaGraph.Text

/-- A set of code points as a number, with one bit for each of them. -/
def bits (codes : List Nat) : Nat :=
  codes.foldr (fun code rest => 1 <<< code ||| rest) 0

/-- The bits of a mask are the codes that it was made from, so membership is one test. -/
theorem testBit_bits {codes : List Nat} {code : Nat} :
    (bits codes).testBit code = true ↔ code ∈ codes := by
  induction codes with
  | nil => simp [bits]
  | cons first rest ih =>
    have split : bits (first :: rest) = 1 <<< first ||| bits rest := rfl
    rw [split, Nat.testBit_or, Bool.or_eq_true, ih, List.mem_cons, Nat.one_shiftLeft,
      Nat.testBit_two_pow]
    simp [eq_comm]

/-- Sets without a common bit are disjoint. -/
theorem notMem_of_land_bits {first second : List Nat} (apart : bits first &&& bits second = 0)
    {code : Nat} (listed : code ∈ first) : code ∉ second := by
  intro both
  have bit : (bits first &&& bits second).testBit code = true := by
    rw [Nat.testBit_and, testBit_bits.mpr listed, testBit_bits.mpr both, Bool.and_self]
  simp [apart] at bit

/-- The code points that a range maps. -/
def CaseRange.codes (range : CaseRange) : List Nat :=
  (List.range ((range.last - range.first) / range.step + 1)).map (range.first + range.step * ·)

/-- What a range maps them to. -/
def CaseRange.images (range : CaseRange) : List Nat :=
  range.codes.map range.image

/-- The codes that a range covers are among those that it lists. -/
theorem CaseRange.mem_codes {range : CaseRange} {code : Nat} (covers : range.covers code = true) :
    code ∈ range.codes := by
  simp only [CaseRange.covers, Bool.and_eq_true, decide_eq_true_eq, beq_iff_eq] at covers
  obtain ⟨⟨atLeast, atMost⟩, onStep⟩ := covers
  have steps : range.step * ((code - range.first) / range.step) = code - range.first :=
    Nat.mul_div_cancel' (Nat.dvd_of_mod_eq_zero onStep)
  have inRange : (code - range.first) / range.step ≤ (range.last - range.first) / range.step :=
    Nat.div_le_div_right (by omega)
  rw [codes, List.mem_map]
  refine ⟨(code - range.first) / range.step, List.mem_range.mpr (by omega), ?_⟩
  rw [steps]
  omega

section Tables

variable (expansions : List (Nat × List Nat)) (ranges : List CaseRange)

/-- The code points that the tables map. -/
def mapped : List Nat :=
  expansions.map Prod.fst ++ ranges.flatMap CaseRange.codes

/-- The code points of all mapped forms. -/
def targets : List Nat :=
  expansions.flatMap Prod.snd ++ ranges.flatMap CaseRange.images

/-- The code points that stand first in a mapped form. -/
def firstTargets : List Nat :=
  expansions.filterMap (·.2.head?) ++ ranges.flatMap CaseRange.images

/-- What makes a mapping settle: mapped forms are not empty, they consist of characters other than
dots and underscores, and nothing that stands first in one of them is mapped. -/
structure Settles : Prop where
  nonempty : ∀ entry ∈ expansions, entry.2 ≠ []
  plain : ∀ code ∈ targets expansions ranges,
    code.isValidChar ∧ code ≠ '.'.toNat ∧ code ≠ '_'.toNat
  settled : bits (firstTargets expansions ranges) &&& bits (mapped expansions ranges) = 0

end Tables

/-- The tables of upper case make a mapping that settles. -/
theorem settles_upper : Settles upperExpansions upperRanges where
  nonempty := by decide +kernel
  plain := by decide +kernel
  settled := by decide +kernel

/-- The tables of lower case make a mapping that settles. -/
theorem settles_lower : Settles lowerExpansions lowerRanges where
  nonempty := by decide +kernel
  plain := by decide +kernel
  settled := by decide +kernel

/-- The code of a character is recovered from the character. -/
theorem toNat_ofNat {code : Nat} (valid : code.isValidChar) : (Char.ofNat code).toNat = code := by
  rw [Char.ofNat, dif_pos valid]
  rfl

section Mapping

variable {expansions : List (Nat × List Nat)} {ranges : List CaseRange}

/-- A character is mapped by an expansion or by a range, or it is not mapped at all. -/
theorem mapCase_cases (expansions : List (Nat × List Nat)) (ranges : List CaseRange) (c : Char) :
    (∃ entry ∈ expansions, mapCase expansions ranges c = entry.2.map Char.ofNat) ∨
      (∃ range ∈ ranges, range.image c.toNat ∈ range.images ∧
        mapCase expansions ranges c = [Char.ofNat (range.image c.toNat)]) ∨
      mapCase expansions ranges c = [c] := by
  rw [mapCase]
  split
  · next codes found =>
    obtain ⟨_, _, entries, _⟩ := List.lookup_eq_some_iff.mp found
    exact .inl ⟨(c.toNat, codes), by simp [entries], rfl⟩
  · split
    · next range found =>
      have covers : range.covers c.toNat = true := by simpa using List.find?_some found
      exact .inr (.inl ⟨range, List.mem_of_find?_eq_some found,
        List.mem_map_of_mem (CaseRange.mem_codes covers), rfl⟩)
    · exact .inr (.inr rfl)

/-- What the tables do not map stays as it is. -/
theorem mapCase_of_notMem_mapped {c : Char} (unmapped : c.toNat ∉ mapped expansions ranges) :
    mapCase expansions ranges c = [c] := by
  simp only [mapped, List.mem_append, List.mem_map, List.mem_flatMap, not_or, not_exists,
    not_and] at unmapped
  have noExpansion : expansions.lookup c.toNat = none := by
    rw [List.lookup_eq_none_iff]
    intro entry listed
    simpa using Ne.symm (unmapped.1 entry listed)
  have noRange : ranges.find? (·.covers c.toNat) = none := by
    rw [List.find?_eq_none]
    exact fun range listed covers => unmapped.2 range listed (CaseRange.mem_codes covers)
  rw [mapCase, noExpansion, noRange]

/-- In a mapped form there are only code points that the tables map to, unless the character stays
as it is. -/
theorem mem_mapCase {c d : Char} (listed : d ∈ mapCase expansions ranges c) :
    (∃ code ∈ targets expansions ranges, d = Char.ofNat code) ∨ d = c := by
  rcases mapCase_cases expansions ranges c with
    ⟨entry, isEntry, form⟩ | ⟨range, isRange, isImage, form⟩ | form
  · rw [form, List.mem_map] at listed
    obtain ⟨code, isCode, rfl⟩ := listed
    exact .inl ⟨code, List.mem_append_left _ (List.mem_flatMap.mpr ⟨entry, isEntry, isCode⟩), rfl⟩
  · rw [form, List.mem_singleton] at listed
    exact .inl ⟨_, List.mem_append_right _ (List.mem_flatMap.mpr ⟨range, isRange, isImage⟩), listed⟩
  · exact .inr (List.mem_singleton.mp (form ▸ listed))

/-- What stands first in a mapped form is the character itself or listed as such. -/
theorem head?_mapCase {c d : Char} (first : (mapCase expansions ranges c).head? = some d) :
    (∃ code ∈ firstTargets expansions ranges, d = Char.ofNat code) ∨
      mapCase expansions ranges d = [d] := by
  rcases mapCase_cases expansions ranges c with
    ⟨entry, isEntry, form⟩ | ⟨range, isRange, isImage, form⟩ | form
  · rw [form, List.head?_map, Option.map_eq_some_iff] at first
    obtain ⟨code, isFirst, rfl⟩ := first
    exact .inl ⟨code, List.mem_append_left _ (List.mem_filterMap.mpr ⟨entry, isEntry, isFirst⟩),
      rfl⟩
  · rw [form, List.head?_cons, Option.some_inj] at first
    exact .inl ⟨_, List.mem_append_right _ (List.mem_flatMap.mpr ⟨range, isRange, isImage⟩),
      first.symm⟩
  · rw [form, List.head?_cons, Option.some_inj] at first
    exact .inr (first ▸ form)

/-- What a mapped text may begin with is something that the tables map to. -/
theorem firstTargets_subset : firstTargets expansions ranges ⊆ targets expansions ranges := by
  intro code listed
  rcases List.mem_append.mp listed with isFirst | isImage
  · obtain ⟨entry, isEntry, first⟩ := List.mem_filterMap.mp isFirst
    exact List.mem_append_left _ (List.mem_flatMap.mpr ⟨entry, isEntry, List.mem_of_head? first⟩)
  · exact List.mem_append_right _ isImage

/-- No character vanishes when its case is changed. -/
theorem Settles.mapCase_ne_nil (settles : Settles expansions ranges) (c : Char) :
    mapCase expansions ranges c ≠ [] := by
  rcases mapCase_cases expansions ranges c with ⟨entry, isEntry, form⟩ | ⟨range, _, _, form⟩ | form
  · rw [form, ne_eq, List.map_eq_nil_iff]
    exact settles.nonempty entry isEntry
  · simp [form]
  · simp [form]

/-- A dot or an underscore is in the mapped form of no other character. -/
theorem Settles.plain_of_mem (settles : Settles expansions ranges) {c d : Char}
    (listed : d ∈ mapCase expansions ranges c) : (d ≠ '.' ∧ d ≠ '_') ∨ d = c := by
  rcases mem_mapCase listed with ⟨code, isTarget, rfl⟩ | same
  · obtain ⟨valid, noDot, noUnderscore⟩ := settles.plain code isTarget
    refine .inl ⟨fun dot => noDot ?_, fun underscore => noUnderscore ?_⟩
    · rw [← dot, toNat_ofNat valid]
    · rw [← underscore, toNat_ofNat valid]
  · exact .inr same

/-- The first character of a mapped form is not mapped further. -/
theorem Settles.mapCase_head (settles : Settles expansions ranges) {c d : Char}
    (first : (mapCase expansions ranges c).head? = some d) :
    mapCase expansions ranges d = [d] := by
  rcases head?_mapCase first with ⟨code, isFirst, rfl⟩ | unmapped
  · apply mapCase_of_notMem_mapped
    have valid := (settles.plain code (firstTargets_subset isFirst)).1
    rw [toNat_ofNat valid]
    exact notMem_of_land_bits settles.settled isFirst
  · exact unmapped

end Mapping

end SchemaGraph.Text
