import Mathlib.Data.List.TakeWhile
import Mathlib.Tactic.Ring
import SchemaGraph.Proofs.WrittenDigits
import SchemaGraph.PropertyOption

/-!
# The grammar of literals

A literal is spelled in one of three ways. Text between single quotes is a string, whatever stands
between them. Other text with a decimal point is a float if it spells a decimal number: a sign or
none, digits with one point among or beside them, and an exponent or none. Other text without a
point is an integer if it spells one that fits into 64 bits. Nothing else is a literal.
-/

namespace SchemaGraph

namespace Decimal

/-- The number that a row of digits denotes: each digit counts the power of ten of its place. -/
def placeValue : List Char → Nat
  | [] => 0
  | c :: rest => (c.toNat - '0'.toNat) * 10 ^ rest.length + placeValue rest

/-- Digits are read by their places. -/
theorem natural_eq_placeValue (digits : List Char) : natural digits = placeValue digits := by
  have shifted (digits : List Char) (before : Nat) :
      Nat.ofDigitChars 10 digits before = before * 10 ^ digits.length + placeValue digits := by
    induction digits generalizing before with
    | nil => simp [placeValue]
    | cons c rest ih =>
      rw [Nat.ofDigitChars_cons, ih, placeValue, List.length_cons, pow_succ]
      ring
  rw [natural, shifted, Nat.zero_mul, Nat.zero_add]

/-- A text with a sign in front of it, or with none; the sign tells whether a number is negative. -/
inductive Signed : Bool → List Char → List Char → Prop
  | bare (unsigned : List Char) : Signed false unsigned unsigned
  | plus (unsigned : List Char) : Signed false unsigned ('+' :: unsigned)
  | minus (unsigned : List Char) : Signed true unsigned ('-' :: unsigned)

/-- An integer is spelled by a sign or none and at least one digit. -/
inductive SpellsInteger : List Char → Int → Prop
  | intro {negative : Bool} {digits text : List Char} (signed : Signed negative digits text)
      (inside : ∀ c ∈ digits, c.isDigit = true) (nonempty : digits ≠ []) :
      SpellsInteger text (if negative then -(placeValue digits : Int) else placeValue digits)

/-- An exponent is an integer behind its mark, or is left out. -/
inductive SpellsExponent : List Char → Int → Prop
  | absent : SpellsExponent [] 0
  | marked {mark : Char} {text : List Char} {exponent : Int} (isMark : mark = 'e' ∨ mark = 'E')
      (spelled : SpellsInteger text exponent) : SpellsExponent (mark :: text) exponent

/-- A decimal number is spelled by a sign or none, digits with one point, at least one of them
before or behind it, and an exponent or none. -/
inductive SpellsPointed : List Char → Decimal → Prop
  | intro {negative : Bool} {whole fraction behind text : List Char} {exponent : Int}
      (signed : Signed negative (whole ++ '.' :: (fraction ++ behind)) text)
      (wholeInside : ∀ c ∈ whole, c.isDigit = true)
      (fractionInside : ∀ c ∈ fraction, c.isDigit = true)
      (nonempty : whole ≠ [] ∨ fraction ≠ []) (spelled : SpellsExponent behind exponent) :
      SpellsPointed text ⟨negative, placeValue (whole ++ fraction), exponent - fraction.length⟩

/-- A sign that is split off is the one in front. -/
theorem signed_splitSign (text : List Char) :
    Signed (splitSign text).1 (splitSign text).2 text := by
  unfold splitSign
  split
  · exact .minus _
  · exact .plus _
  · exact .bare _

/-- A sign is taken off in front of what does not begin with another one. -/
theorem splitSign_of_signed {negative : Bool} {unsigned text : List Char}
    (signed : Signed negative unsigned text)
    (first : ∀ c ∈ unsigned.head?, c ≠ '-' ∧ c ≠ '+') : splitSign text = (negative, unsigned) := by
  cases signed with
  | minus | plus => rfl
  | bare =>
    cases unsigned with
    | nil => rfl
    | cons c rest =>
      obtain ⟨notMinus, notPlus⟩ := first c rfl
      unfold splitSign
      split <;> simp_all

/-- Exactly the spelled integers are read. -/
theorem readInteger?_eq_some_iff {text : List Char} {n : Int} :
    readInteger? text = some n ↔ SpellsInteger text n := by
  have signed := signed_splitSign text
  rw [readInteger?]
  constructor
  · intro read
    generalize splitSign text = split at signed read
    obtain ⟨negative, digits⟩ := split
    simp only [Option.ite_none_left_eq_some, Bool.or_eq_true, List.isEmpty_iff, not_or,
      Bool.not_eq_true', Bool.not_eq_false, List.all_eq_true, Option.some.injEq] at read
    obtain ⟨⟨nonempty, inside⟩, rfl⟩ := read
    rw [natural_eq_placeValue]
    exact .intro signed inside nonempty
  · intro spelled
    cases spelled with
    | @intro negative digits _ signed inside nonempty =>
      have split : splitSign text = (negative, digits) := by
        refine splitSign_of_signed signed fun c first => ?_
        have digit := inside c (List.mem_of_mem_head? first)
        constructor <;> rintro rfl <;> simp at digit
      have all : digits.all Char.isDigit = true := List.all_eq_true.mpr inside
      simp [split, all, nonempty, natural_eq_placeValue]

/-- Exactly the spelled exponents are read. -/
theorem readExponent?_eq_some_iff {text : List Char} {exponent : Int} :
    readExponent? text = some exponent ↔ SpellsExponent text exponent := by
  cases text with
  | nil =>
    rw [readExponent?, Option.some.injEq]
    constructor
    · rintro rfl
      exact .absent
    · rintro ⟨⟩
      rfl
  | cons mark rest =>
    rw [readExponent?]
    constructor
    · intro read
      split at read
      · rename_i isMark
        exact .marked (by simpa using isMark) (readInteger?_eq_some_iff.mp read)
      · simp at read
    · intro spelled
      cases spelled with
      | marked isMark spelled =>
        rw [if_pos (by simpa using isMark), readInteger?_eq_some_iff.mpr spelled]

/-- An exponent does not go on with the digits in front of it. -/
theorem SpellsExponent.stops {text : List Char} {exponent : Int}
    (spelled : SpellsExponent text exponent) : Text.Stops Char.isDigit text := by
  cases spelled with
  | absent => exact Text.stops_nil
  | marked isMark => obtain rfl | rfl := isMark <;> exact Text.stops_cons.mpr (by decide)

/-- Exactly the spelled decimals are read. -/
theorem read?_eq_some_iff {text : List Char} {d : Decimal} :
    read? text = some d ↔ SpellsPointed text d := by
  rw [read?]
  constructor
  · intro read
    have signed := signed_splitSign text
    generalize splitSign text = split at signed read
    obtain ⟨negative, unsigned⟩ := split
    dsimp only at signed read
    split at read
    · rename_i rest point
      split at read
      · simp at read
      · rename_i nonempty
        rw [Bool.and_eq_true, List.isEmpty_iff, List.isEmpty_iff, not_and_or] at nonempty
        obtain ⟨exponent, exponentRead, rfl⟩ := Option.map_eq_some_iff.mp read
        have parts : unsigned = unsigned.takeWhile Char.isDigit ++
            '.' :: (rest.takeWhile Char.isDigit ++ rest.dropWhile Char.isDigit) := by
          rw [List.takeWhile_append_dropWhile, ← point, List.takeWhile_append_dropWhile]
        rw [natural_eq_placeValue]
        exact .intro (parts ▸ signed) (fun c => List.mem_takeWhile_imp)
          (fun c => List.mem_takeWhile_imp) nonempty (readExponent?_eq_some_iff.mp exponentRead)
    · simp at read
  · intro spelled
    cases spelled with
    | @intro negative whole fraction behind _ exponent signed wholeInside fractionInside nonempty
        spelled =>
      have point : Text.Stops Char.isDigit ('.' :: (fraction ++ behind)) :=
        Text.stops_cons.mpr (by decide)
      have split : splitSign text = (negative, whole ++ '.' :: (fraction ++ behind)) := by
        refine splitSign_of_signed signed fun c first => ?_
        cases whole with
        | nil =>
          obtain rfl := Option.some.inj first
          decide
        | cons digit rest =>
          obtain rfl := Option.some.inj first
          have isDigit := wholeInside digit List.mem_cons_self
          constructor <;> rintro rfl <;> simp at isDigit
      have some : (whole.isEmpty && fraction.isEmpty) = false := by
        simpa [← not_and_or] using nonempty
      simp only [split, Text.takeWhile_run wholeInside point, Text.dropWhile_run wholeInside point,
        Text.takeWhile_run fractionInside spelled.stops,
        Text.dropWhile_run fractionInside spelled.stops, some, natural_eq_placeValue,
        readExponent?_eq_some_iff.mpr spelled]
      rfl

end Decimal

/-- The bits are those of something that is not a number: the exponent has all of its bits set, and
the fraction behind it is not zero. -/
def Binary64.IsNaN (bits : Nat) : Prop :=
  bits / 2 ^ 52 % 2 ^ 11 = 2 ^ 11 - 1 ∧ bits % 2 ^ 52 ≠ 0

/-- No float that is read is not a number. -/
theorem Binary64.not_isNaN_bits (x : Binary64) : ¬ IsNaN x.bits := by
  have atMost := x.code_le
  rintro ⟨exponent, fraction⟩
  rw [bits] at exponent fraction
  split at exponent <;> split at fraction <;> omega

namespace Literal

/-- The text stands between single quotes. -/
def IsQuoted (text : String) : Prop :=
  ∃ value : String, text = "'" ++ value ++ "'"

/-- The text spells a literal. -/
inductive Spells (text : String) : Literal → Prop
  | string {value : String} (quoted : text = "'" ++ value ++ "'") : Spells text (.string value)
  | float {d : Decimal} (unquoted : ¬ IsQuoted text) (pointed : '.' ∈ text.toList)
      (spelled : Decimal.SpellsPointed text.toList d) : Spells text (.float (Binary64.ofDecimal d))
  | integer {n : Int} (unquoted : ¬ IsQuoted text) (pointless : '.' ∉ text.toList)
      (spelled : Decimal.SpellsInteger text.toList n) (least : -2 ^ 63 ≤ n)
      (greatest : n ≤ 2 ^ 63 - 1) : Spells text (.integer n)

section Classes

variable {text : String} {literal : Literal}

/-- Between quotes there is one string, and nothing else is spelled. -/
theorem spells_iff_of_quoted {value : String} (quoted : text = "'" ++ value ++ "'") :
    Spells text literal ↔ literal = .string value := by
  constructor
  · intro spelled
    cases spelled with
    | @string other same =>
      have chars := congrArg String.toList (same.symm.trans quoted)
      simp only [String.toList_append, List.append_cancel_left_eq,
        List.append_cancel_right_eq] at chars
      rw [String.toList_inj.mp chars]
    | float unquoted | integer unquoted => exact absurd ⟨value, quoted⟩ unquoted
  · rintro rfl
    exact .string quoted

/-- A text with a point that is not quoted can only spell a float. -/
theorem spells_iff_of_pointed (unquoted : ¬ IsQuoted text) (pointed : '.' ∈ text.toList) :
    Spells text literal ↔
      ∃ d, Decimal.SpellsPointed text.toList d ∧ float (Binary64.ofDecimal d) = literal := by
  constructor
  · intro spelled
    cases spelled with
    | string quoted => exact absurd ⟨_, quoted⟩ unquoted
    | float _ _ spelled => exact ⟨_, spelled, rfl⟩
    | integer _ pointless => exact absurd pointed pointless
  · rintro ⟨d, spelled, rfl⟩
    exact .float unquoted pointed spelled

/-- Without a point it can only spell an integer. -/
theorem spells_iff_of_pointless (unquoted : ¬ IsQuoted text) (pointless : '.' ∉ text.toList) :
    Spells text literal ↔
      ∃ n, Decimal.SpellsInteger text.toList n ∧ (-2 ^ 63 ≤ n ∧ n ≤ 2 ^ 63 - 1) ∧
        integer n = literal := by
  constructor
  · intro spelled
    cases spelled with
    | string quoted => exact absurd ⟨_, quoted⟩ unquoted
    | float _ pointed => exact absurd pointed pointless
    | integer _ _ spelled least greatest => exact ⟨_, spelled, ⟨least, greatest⟩, rfl⟩
  · rintro ⟨n, spelled, ⟨least, greatest⟩, rfl⟩
    exact .integer unquoted pointless spelled least greatest

end Classes

/-- A text is unquoted if a quote stands at both of its ends. -/
theorem unquote?_eq_some_iff {text inner : List Char} :
    unquote? text = some inner ↔ text = '\'' :: (inner ++ ['\'']) := by
  constructor
  · intro read
    unfold unquote? at read
    split at read
    · rename_i rest
      split at read
      · rename_i last
        obtain ⟨front, rfl⟩ := List.getLast?_eq_some_iff.mp last
        rw [List.dropLast_concat] at read
        rw [Option.some.inj read]
      · simp at read
    · simp at read
  · rintro rfl
    simp [unquote?]

/-- A whole text is unquoted exactly if it is put between two single quotes. -/
theorem unquote?_toList_eq_some_iff {text : String} {inner : List Char} :
    unquote? text.toList = some inner ↔ text = "'" ++ String.ofList inner ++ "'" := by
  rw [unquote?_eq_some_iff, ← String.toList_inj]
  simp [String.toList_append]

/-- A text that is not quoted is not unquoted. -/
theorem unquote?_toList_eq_none_iff {text : String} :
    unquote? text.toList = none ↔ ¬ IsQuoted text := by
  rw [Option.eq_none_iff_forall_not_mem]
  simp only [Option.mem_def, unquote?_toList_eq_some_iff, IsQuoted, not_exists]
  refine ⟨fun unquoted value quoted => unquoted value.toList ?_, fun unquoted inner => unquoted _⟩
  rwa [String.ofList_toList]

/-- An integer fits into 64 bits exactly if it lies between the two bounds. -/
theorem isInteger64_eq_true_iff {n : Int} :
    isInteger64 n = true ↔ -2 ^ 63 ≤ n ∧ n ≤ 2 ^ 63 - 1 := by
  simp only [isInteger64, Bool.and_eq_true, decide_eq_true_eq]
  omega

/-- A literal is read from a text exactly if the text spells it. -/
theorem ofText?_eq_some_iff {text : String} {literal : Literal} :
    ofText? text = some literal ↔ Spells text literal := by
  rw [ofText?, ofChars?]
  cases read : unquote? text.toList with
  | some inner =>
    rw [spells_iff_of_quoted (unquote?_toList_eq_some_iff.mp read), Option.some.injEq, eq_comm]
  | none =>
    have unquoted := unquote?_toList_eq_none_iff.mp read
    by_cases pointed : '.' ∈ text.toList
    · simp only [spells_iff_of_pointed unquoted pointed, List.contains_iff_mem, pointed, if_true,
        Option.map_eq_some_iff, Decimal.read?_eq_some_iff]
    · simp only [spells_iff_of_pointless unquoted pointed, List.contains_iff_mem, pointed, if_false,
        ← isInteger64_eq_true_iff, ← Decimal.readInteger?_eq_some_iff]
      cases Decimal.readInteger? text.toList <;> simp

end Literal

namespace PropertyOption

/-- Decoding accepts exactly what is spelled by the grammar. -/
theorem decode_eq_ok_iff {text : String} {literal : Literal} :
    decode text = .ok literal ↔ Literal.Spells text literal := by
  rw [decode, ← Literal.ofText?_eq_some_iff]
  cases Literal.ofText? text <;> simp

/-- Everything else is refused, with the text as it stands. -/
theorem decode_eq_error_iff {text : String} {error : CompileError} :
    decode text = .error error ↔
      (∀ literal, ¬ Literal.Spells text literal) ∧ error = .literalParse text := by
  simp only [← Literal.ofText?_eq_some_iff, ← Option.eq_none_iff_forall_ne_some]
  rw [decode]
  cases Literal.ofText? text <;> simp [eq_comm]

/-- A text is decoded to a literal exactly if it spells the literal: between single quotes
everything is a string as it stands, other text with a decimal point is a float if it spells a
decimal number, and text without one is an integer if it spells one of 64 bits. What spells nothing
is refused with the text as it is. A float is never what stands for no number. -/
theorem decode_follows_grammar (text : String) :
    (∀ literal, decode text = .ok literal ↔ Literal.Spells text literal) ∧
    (∀ error, decode text = .error error ↔
      (∀ literal, ¬ Literal.Spells text literal) ∧ error = .literalParse text) ∧
    ∀ x : Binary64, ¬ Binary64.IsNaN x.bits :=
  ⟨fun _ => decode_eq_ok_iff, fun _ => decode_eq_error_iff, Binary64.not_isNaN_bits⟩

example : decode "1e5" = .error (.literalParse "1e5") := by decide

example : decode "-9223372036854775808" = .ok (.integer (-2 ^ 63)) := by decide

end PropertyOption

end SchemaGraph
