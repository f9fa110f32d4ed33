import SchemaGraph.Proofs.LiteralGrammar
import SchemaGraph.Proofs.ShownNumbers

/-!
# Literals as they are shown

A string is shown between its quotes and an integer by its digits, and both are decoded from this
text again. A float is shown by its shortest decimal. With places behind the point the text is
decoded to the float again. Without them the point is left out as well: the text spells an integer,
and a whole float comes back as this integer or, beyond 64 bits, not at all. Infinity is shown by a
word that spells nothing.
-/

namespace SchemaGraph

namespace Decimal

/-! ### What is written spells the number -/

/-- The integer that a decimal number without places behind the point is. -/
def integer (d : Decimal) : Int :=
  if d.negative then -(d.coefficient * 10 ^ d.exponent.toNat : Nat)
  else (d.coefficient * 10 ^ d.exponent.toNat : Nat)

/-- The digits of a number have its value. -/
theorem placeValue_digits (n : Nat) : placeValue (digits n) = n := by
  rw [← natural_eq_placeValue]
  exact Nat.ofDigitChars_ten_toDigits

/-- Zeros in front of a row of digits do not count. -/
theorem placeValue_zeros_append (count : Nat) (row : List Char) :
    placeValue (List.replicate count '0' ++ row) = placeValue row := by
  simp only [← natural_eq_placeValue, natural, Nat.ofDigitChars_append,
    Nat.ofDigitChars_replicate_zero, Nat.mul_zero]

/-- A zero behind a row of digits counts the row ten times. -/
theorem placeValue_append_zeros (row : List Char) (count : Nat) :
    placeValue (row ++ List.replicate count '0') = placeValue row * 10 ^ count := by
  simp only [← natural_eq_placeValue, natural, Nat.ofDigitChars_append,
    Nat.ofDigitChars_replicate_zero]
  exact Nat.mul_comm _ _

/-- The digits of a natural number are decimal digits. -/
theorem isDigit_of_mem_digits {n : Nat} : ∀ c ∈ digits n, c.isDigit = true :=
  fun _ => Text.isDigit_of_mem_toDigits

/-- The zeros that fill up a number are decimal digits. -/
theorem isDigit_of_mem_zeros {count : Nat} : ∀ c ∈ List.replicate count '0', c.isDigit = true := by
  intro c listed
  obtain rfl := List.eq_of_mem_replicate listed
  rfl

/-- A sign is written in front of negative numbers only. -/
theorem signed_minus (negative : Bool) (unsigned : List Char) :
    Signed negative unsigned ((if negative then ['-'] else []) ++ unsigned) := by
  cases negative
  · exact .bare unsigned
  · exact .minus unsigned

/-- A shown integer spells itself. -/
theorem spellsInteger_renderInteger (n : Int) : SpellsInteger (renderInteger n) n := by
  have spelled := SpellsInteger.intro (signed_minus (decide (n < 0)) (digits n.natAbs))
    isDigit_of_mem_digits Nat.toDigits_ne_nil
  have same : (if n < 0 then -(n.natAbs : Int) else n.natAbs) = n := by split <;> omega
  simp only [decide_eq_true_eq, placeValue_digits, same] at spelled
  exact spelled

variable {d : Decimal}

/-- A decimal without places behind the point is written as an integer. -/
theorem spellsInteger_render (noPlaces : 0 ≤ d.exponent) : SpellsInteger d.render d.integer := by
  have inside : ∀ c ∈ digits d.coefficient ++ List.replicate d.exponent.toNat '0',
      c.isDigit = true :=
    List.forall_mem_append.mpr ⟨isDigit_of_mem_digits, isDigit_of_mem_zeros⟩
  have spelled : SpellsInteger d.render _ :=
    .intro (signed_minus d.negative _) (by rwa [positional, if_pos noPlaces])
      (by simp [positional, noPlaces, digits])
  rwa [positional, if_pos noPlaces, placeValue_append_zeros, placeValue_digits] at spelled

/-- A coefficient with places behind the point is written with digits in front of the point and as
many digits behind it as there are places. -/
theorem exists_positional_eq (coefficient : Nat) {places : Nat} (positive : 0 < places) :
    ∃ whole fraction : List Char,
      positional coefficient (-places) = whole ++ '.' :: fraction ∧
      (∀ c ∈ whole, c.isDigit = true) ∧ (∀ c ∈ fraction, c.isDigit = true) ∧ whole ≠ [] ∧
      fraction.length = places ∧ placeValue (whole ++ fraction) = coefficient := by
  have inside := isDigit_of_mem_digits (n := coefficient)
  rw [positional, if_neg (by omega), neg_neg, Int.toNat_natCast]
  split
  · -- The point stands among the digits.
    refine ⟨_, _, rfl, fun c listed => inside c (List.mem_of_mem_take listed),
      fun c listed => inside c (List.mem_of_mem_drop listed), ?_, ?_, ?_⟩
    · rw [ne_eq, List.take_eq_nil_iff, not_or]
      exact ⟨by omega, Nat.toDigits_ne_nil⟩
    · rw [List.length_drop]
      omega
    · rw [List.take_append_drop, placeValue_digits]
  · -- Zeros stand between the point and the digits.
    refine ⟨['0'], _, rfl, by simp,
      List.forall_mem_append.mpr ⟨isDigit_of_mem_zeros, inside⟩, by simp, ?_, ?_⟩
    · rw [List.length_append, List.length_replicate]
      omega
    · rw [← List.append_assoc, List.singleton_append, ← List.replicate_succ,
        placeValue_zeros_append, placeValue_digits]

/-- A decimal with places behind the point is written with them. -/
theorem spellsPointed_render (places : d.exponent < 0) : SpellsPointed d.render d := by
  obtain ⟨negative, coefficient, exponent⟩ := d
  obtain ⟨count, rfl⟩ := Int.exists_eq_neg_ofNat places.le
  have positive : 0 < count := by simpa using places
  obtain ⟨whole, fraction, parts, wholeInside, fractionInside, nonempty, length, value⟩ :=
    exists_positional_eq coefficient positive
  have signed := signed_minus negative (positional coefficient (-count))
  rw [parts, ← List.append_nil fraction] at signed
  have spelled : SpellsPointed _ _ :=
    .intro signed wholeInside fractionInside (.inl nonempty) .absent
  rw [value, length, zero_sub, List.append_nil, ← parts] at spelled
  exact spelled

/-! ### Which class the text falls into -/

/-- An integer is spelled without a point. -/
theorem SpellsInteger.pointless {text : List Char} {n : Int} (spelled : SpellsInteger text n) :
    '.' ∉ text := by
  cases spelled with
  | intro signed inside =>
    have outside : '.' ∉ _ := fun listed => absurd (inside '.' listed) (by decide)
    cases signed <;> simpa using outside

/-- A decimal is spelled with one. -/
theorem SpellsPointed.pointed {text : List Char} (spelled : SpellsPointed text d) :
    '.' ∈ text := by
  cases spelled with
  | intro signed => cases signed <;> simp

end Decimal

namespace Literal

/-- A quoted text begins with a quote. -/
theorem IsQuoted.exists_toList_eq {text : String} (quoted : IsQuoted text) :
    ∃ rest, text.toList = '\'' :: rest := by
  obtain ⟨value, rfl⟩ := quoted
  exact ⟨value.toList ++ ['\''], by simp [String.toList_append]⟩

/-- An integer does not begin with a quote. -/
theorem not_isQuoted_of_spellsInteger {text : String} {n : Int}
    (spelled : Decimal.SpellsInteger text.toList n) : ¬ IsQuoted text := by
  intro quoted
  obtain ⟨rest, isText⟩ := quoted.exists_toList_eq
  rw [isText] at spelled
  cases spelled with
  | intro signed inside =>
    cases signed
    exact absurd (inside '\'' List.mem_cons_self) (by decide)

/-- A number with a point does not begin with a quote. -/
theorem not_isQuoted_of_spellsPointed {text : String} {d : Decimal}
    (spelled : Decimal.SpellsPointed text.toList d) : ¬ IsQuoted text := by
  intro quoted
  obtain ⟨rest, isText⟩ := quoted.exists_toList_eq
  rw [isText] at spelled
  generalize isFirst : '\'' :: rest = first at spelled
  cases spelled with
  | @intro _ whole _ _ _ _ signed wholeInside =>
    cases signed with
    | plus | minus => simp at isFirst
    | bare =>
      cases whole with
      | nil => simp at isFirst
      | cons digit whole =>
        obtain ⟨rfl, -⟩ := List.cons.inj isFirst
        exact absurd (wholeInside '\'' List.mem_cons_self) (by decide)

end Literal

namespace PropertyOption

variable {text : String}

/-- A spelled decimal is decoded as the float nearest to it. -/
theorem decode_ofList_of_spellsPointed {chars : List Char} {d : Decimal}
    (spelled : Decimal.SpellsPointed chars d) :
    decode (String.ofList chars) = .ok (.float (Binary64.ofDecimal d)) := by
  rw [← String.toList_ofList (l := chars)] at spelled
  exact decode_eq_ok_iff.mpr
    (.float (Literal.not_isQuoted_of_spellsPointed spelled) spelled.pointed spelled)

/-- What spells an integer is the integer, or nothing beyond 64 bits. -/
theorem decode_ofList_of_spellsInteger {chars : List Char} {n : Int}
    (spelled : Decimal.SpellsInteger chars n) :
    decode (String.ofList chars) =
      if isInteger64 n then .ok (.integer n) else .error (.literalParse (String.ofList chars)) := by
  rw [← String.toList_ofList (l := chars)] at spelled
  have unquoted := Literal.not_isQuoted_of_spellsInteger spelled
  split
  · rename_i fits
    obtain ⟨least, greatest⟩ := Literal.isInteger64_eq_true_iff.mp fits
    exact decode_eq_ok_iff.mpr (.integer unquoted spelled.pointless spelled least greatest)
  · rename_i beyond
    refine decode_eq_error_iff.mpr ⟨fun literal other => beyond ?_, rfl⟩
    obtain ⟨m, otherSpelled, fits, -⟩ :=
      (Literal.spells_iff_of_pointless unquoted spelled.pointless).mp other
    have same := (Decimal.readInteger?_eq_some_iff.mpr otherSpelled).symm.trans
      (Decimal.readInteger?_eq_some_iff.mpr spelled)
    rw [← Option.some.inj same]
    exact Literal.isInteger64_eq_true_iff.mpr fits

/-- The integers that are decoded fit into 64 bits. -/
theorem isInteger64_of_decode {n : Int} (decoded : decode text = .ok (.integer n)) :
    isInteger64 n = true := by
  cases decode_eq_ok_iff.mp decoded with
  | integer _ _ _ least greatest => exact Literal.isInteger64_eq_true_iff.mpr ⟨least, greatest⟩

/-- A shown string is decoded as itself. -/
theorem decode_render_string (value : String) :
    decode (Literal.string value).render = .ok (.string value) :=
  decode_eq_ok_iff.mpr (.string rfl)

/-- A shown integer of 64 bits is decoded as itself. -/
theorem decode_render_integer {n : Int} (fits : isInteger64 n = true) :
    decode (Literal.integer n).render = .ok (.integer n) := by
  rw [Literal.render, decode_ofList_of_spellsInteger (Decimal.spellsInteger_renderInteger n),
    if_pos fits]

section Floats

variable {x : Binary64}

/-- A finite float is shown by its shortest decimal. -/
theorem render_eq_of_finite (finite : x.isInfinite = false) :
    (Literal.float x).render = String.ofList x.shortest.render := by
  simp [Literal.render, Binary64.render, finite]

/-- The word for infinity spells nothing. -/
theorem decode_render_of_infinite (infinite : x.isInfinite = true) :
    decode (Literal.float x).render = .error (.literalParse (Literal.float x).render) := by
  rw [Literal.render, Binary64.render, if_pos infinite]
  cases x.negative <;> decide

/-- A float that is not whole is decoded as itself, because it is shown with a point. -/
theorem decode_render_of_not_whole (finite : x.isInfinite = false) (notWhole : ¬ x.IsWhole) :
    decode (Literal.float x).render = .ok (.float x) := by
  have spelled := Decimal.spellsPointed_render (Binary64.exponent_shortest_lt finite notWhole)
  rw [render_eq_of_finite finite, decode_ofList_of_spellsPointed spelled,
    Binary64.ofDecimal_shortest finite]

/-- A whole float is shown as an integer that is rounded to it. -/
theorem decode_render_of_whole (whole : x.IsWhole) :
    decode (Literal.float x).render =
      if isInteger64 x.shortest.integer then .ok (.integer x.shortest.integer)
      else .error (.literalParse (Literal.float x).render) := by
  have spelled := Decimal.spellsInteger_render (Binary64.exponent_shortest_nonneg whole)
  rw [render_eq_of_finite whole.1]
  exact decode_ofList_of_spellsInteger spelled

end Floats

/-- What is decoded from a text is shown by a text that it is decoded from again, except for a float
that is infinite or whole. Infinity is not decoded again, and a whole float is shown as an integer
that is rounded to it. The text is decoded to this integer if it fits into 64 bits, and to nothing
beyond them. -/
theorem decode_render {literal : Literal} (decoded : decode text = .ok literal) :
    (decode literal.render = .ok literal ↔
      ∀ x, literal = .float x → x.isInfinite = false ∧ ¬ x.IsWhole) ∧
    ∀ x, literal = .float x →
      (x.isInfinite = true → decode literal.render = .error (.literalParse literal.render)) ∧
      (x.IsWhole → ∃ d : Decimal, 0 ≤ d.exponent ∧ Binary64.ofDecimal d = x ∧
        decode literal.render =
          if isInteger64 d.integer then .ok (.integer d.integer)
          else .error (.literalParse literal.render)) := by
  cases literal with
  | string value => simp [decode_render_string value]
  | integer n => simp [decode_render_integer (isInteger64_of_decode decoded)]
  | float x =>
    simp only [Literal.float.injEq, forall_eq']
    refine ⟨⟨?_, fun ⟨finite, notWhole⟩ => decode_render_of_not_whole finite notWhole⟩,
      decode_render_of_infinite, fun whole => ?_⟩
    · intro again
      constructor
      · by_contra infinite
        rw [decode_render_of_infinite (by simpa using infinite)] at again
        simp at again
      · intro whole
        rw [decode_render_of_whole whole] at again
        split at again <;> simp at again
    · exact ⟨x.shortest, Binary64.exponent_shortest_nonneg whole,
        Binary64.ofDecimal_shortest whole.1, decode_render_of_whole whole⟩

/-- One and a half is shown with its place behind the point. -/
theorem decode_render_oneAndHalf :
    ∃ x, decode "1.50" = .ok (.float x) ∧ decode (Literal.float x).render = .ok (.float x) := by
  have decoded : decode "1.50" = .ok (.float (Binary64.ofDecimal ⟨false, 150, -2⟩)) := by
    decide +kernel
  refine ⟨_, decoded, (decode_render decoded).1.mpr ?_⟩
  rintro x ⟨⟩
  decide +kernel

/-- Three as a float is shown as an integer. -/
theorem exists_decode_render_ne :
    ∃ literal, decode "3.0" = .ok literal ∧ literal.render = "3" ∧
      decode literal.render = .ok (.integer 3) ∧ literal ≠ .integer 3 :=
  ⟨.float (Binary64.ofDecimal ⟨false, 30, -1⟩), by decide +kernel, by decide +kernel,
    by decide +kernel, by simp⟩

end PropertyOption

end SchemaGraph
