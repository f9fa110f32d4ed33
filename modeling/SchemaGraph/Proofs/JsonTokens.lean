import SchemaGraph.Json
import SchemaGraph.Json.Token
import SchemaGraph.Proofs.WrittenDigits

/-!
# Written tokens are scanned back

A text of JSON is cut into tokens from left to right. What is written for a string, a number or a
punctuation mark is cut off as this token, in front of any text that does not go on with a number.
Only a number could be taken for a longer one; in a written value it never is, as a comma, a closing
bracket or a line end follows it.
-/

namespace SchemaGraph.Json

namespace Token

/-- The characters that a number of digits would go on with. -/
def continuesNumber (c : Char) : Bool :=
  c.isDigit || c == '.' || c == 'e' || c == 'E'

/-- A larger bound cuts the same tokens. -/
theorem scanWithin_mono {bound more : Nat} (larger : bound ≤ more) {text : List Char}
    {tokens : List Token} (scanned : scanWithin bound text = some tokens) :
    scanWithin more text = some tokens := by
  induction bound generalizing more text tokens with
  | zero =>
    cases text with
    | nil => simpa [scanWithin] using scanned
    | cons c rest => simp [scanWithin] at scanned
  | succ bound ih =>
    cases text with
    | nil => simpa [scanWithin] using scanned
    | cons c rest =>
      obtain ⟨more, rfl⟩ := Nat.exists_eq_add_one_of_ne_zero (show more ≠ 0 by omega)
      rw [scanWithin] at scanned ⊢
      split
      · next space =>
        rw [if_pos space] at scanned
        exact ih (by omega) scanned
      · next mark =>
        rw [if_neg mark] at scanned
        cases cut : first? (c :: rest) with
        | none => simp [cut] at scanned
        | some found =>
          simp only [cut, Option.map_eq_some_iff] at scanned ⊢
          obtain ⟨behind, cutBehind, rfl⟩ := scanned
          exact ⟨behind, ih (by omega) cutBehind, rfl⟩

/-- The text is cut into the tokens, in front of any text that does not go on with a number. -/
def Scans (text : List Char) (tokens : List Token) : Prop :=
  ∀ bound behind more, Text.Stops continuesNumber behind → scanWithin bound behind = some more →
    scanWithin (bound + text.length) (text ++ behind) = some (tokens ++ more)

/-- A text that scans as tokens is scanned as these. -/
theorem Scans.scan? {text : List Char} {tokens : List Token} (scans : Scans text tokens) :
    scan? text = some tokens := by
  have whole := scans 0 [] [] Text.stops_nil (by simp [scanWithin])
  simpa [Token.scan?] using whole

/-- The empty text has no tokens. -/
theorem scans_nil : Scans [] [] := by
  intro bound behind more _ scanned
  simpa using scanned

/-- A text that no number goes on with can follow any other. -/
theorem Scans.append {front back : List Char} {first second : List Token}
    (scansFront : Scans front first) (scansBack : Scans back second)
    (apart : Text.Stops continuesNumber back) (written : back ≠ []) :
    Scans (front ++ back) (first ++ second) := by
  intro bound behind more stops scanned
  have stopsBack : Text.Stops continuesNumber (back ++ behind) := by
    cases back with
    | nil => exact absurd rfl written
    | cons c rest => simpa using apart
  have cut := scansFront _ _ _ stopsBack (scansBack bound behind more stops scanned)
  have length : bound + (front ++ back).length = bound + back.length + front.length := by
    rw [List.length_append]
    omega
  rw [length, List.append_assoc, List.append_assoc]
  exact cut

/-- Blanks are passed over. -/
theorem Scans.spaces {blanks : List Char} (space : ∀ c ∈ blanks, isSpace c = true)
    {text : List Char} {tokens : List Token} (scans : Scans text tokens) :
    Scans (blanks ++ text) tokens := by
  induction blanks with
  | nil => exact scans
  | cons c rest ih =>
    have inner := ih fun c listed => space c (List.mem_cons_of_mem _ listed)
    intro bound behind more stops scanned
    rw [List.cons_append, List.length_cons, ← Nat.add_assoc, List.cons_append, scanWithin,
      if_pos (space c List.mem_cons_self)]
    exact inner bound behind more stops scanned

/-- A space ends a number. -/
theorem continuesNumber_of_isSpace {c : Char} (space : isSpace c = true) :
    continuesNumber c = false := by
  simp only [isSpace, Bool.or_eq_true, beq_iff_eq] at space
  obtain ((rfl | rfl) | rfl) | rfl := space <;> decide

/-- What is cut off as one token in front of any text is scanned. -/
theorem scans_of_first? {c : Char} {text : List Char} {token : Token} (mark : isSpace c = false)
    (cut : ∀ behind, Text.Stops continuesNumber behind →
      first? (c :: text ++ behind) = some (token, behind)) :
    Scans (c :: text) [token] := by
  intro bound behind more stops scanned
  have same := scanWithin_mono (Nat.le_add_right bound text.length) scanned
  have first := cut behind stops
  rw [List.cons_append] at first ⊢
  rw [List.length_cons, ← Nat.add_assoc, scanWithin, first, mark]
  simp [same]

/-- The character is a punctuation mark: it is cut off as the token, whatever follows it. -/
structure Marks (c : Char) (token : Token) : Prop where
  visible : isSpace c = false
  apart : continuesNumber c = false
  cut : ∀ rest, first? (c :: rest) = some (token, rest)

/-- The bracket that opens an array is a token by itself. -/
theorem marks_openArray : Marks '[' openArray := ⟨by decide, by decide, fun _ => rfl⟩

/-- The bracket that closes an array is a token by itself. -/
theorem marks_closeArray : Marks ']' closeArray := ⟨by decide, by decide, fun _ => rfl⟩

/-- The brace that opens an object is a token by itself. -/
theorem marks_openObject : Marks '\x7b' openObject := ⟨by decide, by decide, fun _ => rfl⟩

/-- The brace that closes an object is a token by itself. -/
theorem marks_closeObject : Marks '\x7d' closeObject := ⟨by decide, by decide, fun _ => rfl⟩

/-- The colon behind the name of a field is a token by itself. -/
theorem marks_colon : Marks ':' colon := ⟨by decide, by decide, fun _ => rfl⟩

/-- The comma between two values is a token by itself. -/
theorem marks_comma : Marks ',' comma := ⟨by decide, by decide, fun _ => rfl⟩

/-- A mark in front of a text is one token more. -/
theorem Marks.scans_cons {c : Char} {token : Token} (marks : Marks c token) {text : List Char}
    {tokens : List Token} (scans : Scans text tokens) :
    Scans (c :: text) (token :: tokens) := by
  intro bound behind more stops scanned
  have rest := scans bound behind more stops scanned
  rw [List.length_cons, ← Nat.add_assoc, List.cons_append, scanWithin, marks.cut, marks.visible]
  simp [rest]

/-! ### Strings -/

/-- What is written for a character in quotes is read back as its number. -/
theorem units?_escape (c : Char) (behind : List Char) :
    units? (escape c ++ behind) =
      (units? behind).map fun (units, rest) => (c.toNat :: units, rest) := by
  unfold escape
  -- The characters that have an escape of their own.
  iterate 7
    split
    · next same => simp [units?, escaped?, same]
  split
  · next control =>
    have high := Text.hexValue?_hexDigit (n := c.toNat / 16) (by omega)
    have low := Text.hexValue?_hexDigit (n := c.toNat % 16) (by omega)
    simp [units?, Text.hexNatural?_pair high low]
  · next _ noBackslash _ _ _ _ _ plain => simp [units?, noBackslash, plain]

/-- Escaped characters are read back up to the quote behind them. -/
theorem units?_flatMap_escape (text behind : List Char) :
    units? (text.flatMap escape ++ '"' :: behind) = some (text.map Char.toNat, behind) := by
  induction text with
  | nil => simp [units?]
  | cons c rest ih =>
    rw [List.flatMap_cons, List.append_assoc, units?_escape, ih]
    rfl

/-- No character is half of a surrogate pair. -/
theorem not_surrogate (c : Char) : isHigh c.toNat = false ∧ isLow c.toNat = false := by
  have valid : c.toNat < 0xD800 ∨ 0xDFFF < c.toNat ∧ c.toNat < 0x110000 := c.valid
  simp only [isHigh, isLow, Bool.and_eq_false_iff, decide_eq_false_iff_not]
  omega

/-- Codes that are no surrogates are those of their characters. -/
theorem join?_map_toNat (text : List Char) : join? (text.map Char.toNat) = some text := by
  induction text with
  | nil => rfl
  | cons c rest ih =>
    obtain ⟨noHigh, noLow⟩ := not_surrogate c
    cases rest with
    | nil => simp [join?, noHigh, noLow]
    | cons next rest =>
      rw [List.map_cons] at ih
      simp [join?, noHigh, noLow, ih]

/-- A quoted text is one token. -/
theorem scans_quoted (text : String) : Scans (quoted text) [.string (some text)] := by
  refine scans_of_first? (by decide) fun behind _ => ?_
  have units := units?_flatMap_escape text.toList behind
  simp [first?, units, join?_map_toNat]

/-! ### Numbers -/

/-- The digits of a number are read up to the first character that is no digit. -/
theorem integer?_toDigits (n : Nat) {behind : List Char}
    (stops : Text.Stops Char.isDigit behind) :
    integer? (Nat.toDigits 10 n ++ behind) = some (Nat.toDigits 10 n, behind) := by
  have digits : ∀ c ∈ Nat.toDigits 10 n, c.isDigit = true := fun _ => Text.isDigit_of_mem_toDigits
  have run := Text.takeWhile_run digits stops
  have rest := Text.dropWhile_run digits stops
  by_cases zero : n = 0
  · subst zero
    rfl
  · have noZero := Text.head_toDigits_ne_zero zero
    cases written : Nat.toDigits 10 n with
    | nil => exact absurd written Nat.toDigits_ne_nil
    | cons first more =>
      rw [written] at run rest noZero
      have other : first ≠ '0' := by simpa using noZero
      rw [List.cons_append] at run rest ⊢
      unfold integer?
      split
      · next same => exact absurd (List.cons.inj same).1 other
      · simp [run, rest]

/-- Without a point there is no fraction. -/
theorem fraction?_of_stops {text : List Char} (stops : Text.Stops (· == '.') text) :
    fraction? text = some ([], text) := by
  unfold fraction?
  split
  · simp at stops
  · rfl

/-- Where no number goes on there is no exponent. -/
theorem exponent?_of_stops {text : List Char} (stops : Text.Stops continuesNumber text) :
    exponent? text = some ([], text) := by
  cases text with
  | nil => rfl
  | cons c rest =>
    have other : (c = 'e' || c = 'E') = false := by
      have noMark := Text.stops_cons.mp stops
      simp_all [continuesNumber]
    simp [exponent?, other]

/-- A digit is no space. -/
theorem isSpace_of_digit {c : Char} (digit : c.isDigit = true) : isSpace c = false := by
  refine Bool.eq_false_iff.mpr fun space => ?_
  have apart := continuesNumber_of_isSpace space
  simp [continuesNumber, digit] at apart

/-- A digit begins no token but a number. -/
theorem first?_of_digit {c : Char} (digit : c.isDigit = true) (rest : List Char) :
    first? (c :: rest) = number? (c :: rest) := by
  unfold first?
  split <;> simp_all [Char.isDigit]

/-- The digits of a number are one token. -/
theorem scans_toDigits (n : Nat) : Scans (Nat.toDigits 10 n) [.natural n] := by
  cases written : Nat.toDigits 10 n with
  | nil => exact absurd written Nat.toDigits_ne_nil
  | cons c more =>
    have digit : c.isDigit = true :=
      Text.isDigit_of_mem_toDigits (n := n) (written ▸ List.mem_cons_self)
    refine scans_of_first? (isSpace_of_digit digit) fun behind stops => ?_
    have whole := integer?_toDigits n (stops.mono fun c digit => by simp [continuesNumber, digit])
    have noFraction := fraction?_of_stops (stops.mono fun c point => by simp_all [continuesNumber])
    rw [written, List.cons_append] at whole
    have unsigned : unsigned? (c :: (more ++ behind)) = some (c :: more, [], behind) := by
      simp [unsigned?, whole, noFraction, exponent?_of_stops stops]
    rw [List.cons_append, first?_of_digit digit, number?]
    · simp [unsigned, ← written, Nat.ofDigitChars_ten_toDigits]
    · intro _ same
      simp [(List.cons.inj same).1] at digit

end Token

end SchemaGraph.Json
