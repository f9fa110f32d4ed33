import SchemaGraph.Proofs.WrittenDigits
import SchemaGraph.Toml.Quoted
import SchemaGraph.Toml.Quoted.Style

/-!
# Quoted strings are read back

A string in quotes is read back, in front of any text that does not begin with a quote. Between
single quotes the string stands as it is, and between double quotes each of its characters gives
itself back. Between tripled quotes the string may hold the quote itself: the reader looks for three
of them in a row wherever a character begins, so that what is written must never begin a third one
in a row before the end.
-/

namespace SchemaGraph.Toml.Quoted

/-! ### Characters -/

/-- What is no control character and no line break can be printed. -/
theorem isPrintable_of_isControl {c : Char} (plain : isControl c = false) (inLine : c ≠ '\n') :
    isPrintable c = true := by
  by_cases tab : c = '\t'
  · simp [isPrintable, tab]
  · simp only [isControl, Bool.or_eq_false_iff, Bool.and_eq_false_iff, decide_eq_false_iff_not,
      bne_eq_false_iff_eq, beq_eq_false_iff_ne] at plain
    simp only [isPrintable, Bool.or_eq_true, Bool.and_eq_true, decide_eq_true_eq, bne_iff_ne]
    obtain ⟨(high | isTab) | isLineEnd, other⟩ := plain
    · exact .inr ⟨by omega, other⟩
    · exact absurd isTab tab
    · exact absurd isLineEnd inLine

/-- No printed character ends a line. -/
theorem newLine?_of_isPrintable {c : Char} (printed : isPrintable c = true) (rest : List Char) :
    newLine? (c :: rest) = none := by
  unfold newLine?
  split
  · next same => simp [(List.cons.inj same).1, isPrintable] at printed
  · next same => simp [(List.cons.inj same).1, isPrintable] at printed
  · rfl

/-- What is written for a character is never empty, and begins with no double quote. -/
theorem escape_eq_cons (c : Char) :
    ∃ first more, escape c = first :: more ∧ isPrintable first = true ∧ first ≠ '"' := by
  unfold escape
  -- The characters that have an escape of their own.
  iterate 7
    split
    · exact ⟨'\\', _, rfl, by decide, by decide⟩
  split
  · exact ⟨'\\', _, rfl, by decide, by decide⟩
  · next inLine _ _ noQuote _ plain =>
    exact ⟨c, _, rfl, isPrintable_of_isControl (by simpa using plain) inLine, noQuote⟩

/-- What is written for a character gives it back. -/
theorem character?_escape (c : Char) (behind : List Char) :
    character? (escape c ++ behind) = some (c, behind) := by
  unfold escape
  iterate 7
    split
    · next same => simp [character?, escaped?, same]
  split
  · next control =>
    have small : c.toNat < 0x100 := by
      simp only [isControl, Bool.or_eq_true, Bool.and_eq_true, decide_eq_true_eq,
        beq_iff_eq] at control
      omega
    have high := Text.hexValue?_upperHexDigit (n := c.toNat / 16) (by omega)
    have low := Text.hexValue?_upperHexDigit (n := c.toNat % 16) (by omega)
    have valid : c.toNat.isValidChar := c.valid
    simp [character?, escaped?, numbered?, Text.hexNatural?_pair high low, valid]
  · next inLine _ _ noQuote noBackslash plain =>
    have printed := isPrintable_of_isControl (by simpa using plain) inLine
    simp [character?, noQuote, printed]

/-- What is written for a character joins no lines. -/
theorem continued?_escape (c : Char) (behind : List Char) :
    continued? (escape c ++ behind) = none := by
  unfold escape
  iterate 7
    split
    · simp [continued?, dropSpaces, isSpace, newLine?]
  split
  · simp [continued?, dropSpaces, isSpace, newLine?]
  · next noBackslash _ => simp [continued?, noBackslash]

/-- An escaped character is read back as one piece. -/
theorem basicPiece?_escape (c : Char) (behind : List Char) :
    basicPiece? (escape c ++ behind) = some ([c], behind) := by
  simp [basicPiece?, continued?_escape, character?_escape]

/-- A printable character that is no quote may stand for itself. -/
theorem isLiteral_of_isControl {c : Char} (plain : isControl c = false) (inLine : c ≠ '\n')
    (noQuote : c ≠ '\'') : isLiteral c = true := by
  simp [isLiteral, isPrintable_of_isControl plain inLine, noQuote]

/-! ### Strings on one line -/

/-- Escaped text is read back up to the quote behind it. -/
theorem basicWithin_escape (text behind : List Char) {bound : Nat} (enough : text.length < bound) :
    basicWithin bound (text.flatMap escape ++ '"' :: behind) = some (text, behind) := by
  induction text generalizing bound with
  | nil =>
    obtain ⟨bound, rfl⟩ := Nat.exists_eq_add_one_of_ne_zero (show bound ≠ 0 by omega)
    rfl
  | cons c rest ih =>
    obtain ⟨bound, rfl⟩ := Nat.exists_eq_add_one_of_ne_zero (show bound ≠ 0 by omega)
    rw [List.length_cons] at enough
    have first := character?_escape c (rest.flatMap escape ++ '"' :: behind)
    obtain ⟨front, more, written, -, noQuote⟩ := escape_eq_cons c
    rw [List.flatMap_cons, List.append_assoc]
    rw [written, List.cons_append] at first ⊢
    rw [basicWithin, first]
    · simp [ih (show rest.length < bound by omega), prepend]
    · intro _ same
      exact noQuote (List.cons.inj same).1

/-- To escape a text does not shorten it, so there is enough room to read it. -/
theorem length_le_flatMap_escape (text : List Char) :
    text.length ≤ (text.flatMap escape).length := by
  induction text with
  | nil => exact Nat.le_refl _
  | cons c rest ih =>
    obtain ⟨first, more, written, -, -⟩ := escape_eq_cons c
    simp only [List.flatMap_cons, written, List.cons_append, List.length_cons, List.length_append]
    omega

/-- Escaped text between quotes is read back whatever its length. -/
theorem basic?_escape (text behind : List Char) :
    basic? (text.flatMap escape ++ '"' :: behind) = some (text, behind) := by
  have shorter := length_le_flatMap_escape text
  refine basicWithin_escape text behind ?_
  rw [List.length_append, List.length_cons]
  omega

/-- Text that stands for itself is read back up to the quote behind it. -/
theorem literal?_append {text : List Char} (inside : ∀ c ∈ text, isLiteral c = true)
    (behind : List Char) : literal? (text ++ '\'' :: behind) = some (text, behind) := by
  have stops : Text.Stops isLiteral ('\'' :: behind) := Text.stops_cons.mpr (by decide)
  simp [literal?, Text.takeWhile_run inside stops, Text.dropWhile_run inside stops]

/-! ### Strings between tripled quotes -/

section MultiLine

variable {quote : Char} {piece? : List Char → Option (List Char × List Char)}

/-- The inside, behind so many quotes in a row, spells a text character by character. It does not
begin a third quote in a row, neither where a character begins nor at its end. -/
inductive Spells (quote : Char) (piece? : List Char → Option (List Char × List Char)) :
    Nat → List Char → List Char → Prop
  | nil {quotes : Nat} (few : quotes ≤ 2) : Spells quote piece? quotes [] []
  | newLine {quotes : Nat} {inside text : List Char} (few : quotes ≤ 2)
      (rest : Spells quote piece? 0 inside text) :
      Spells quote piece? quotes ('\n' :: inside) ('\n' :: text)
  | quote {quotes : Nat} {inside text : List Char}
      (rest : Spells quote piece? (quotes + 1) inside text) :
      Spells quote piece? quotes (quote :: inside) (quote :: text)
  | piece {quotes : Nat} {c first : Char} {more inside text : List Char} (few : quotes ≤ 2)
      (printed : isPrintable first = true) (other : first ≠ quote)
      (reads : ∀ behind, piece? (first :: more ++ behind) = some ([c], behind))
      (rest : Spells quote piece? 0 inside text) :
      Spells quote piece? quotes (first :: more ++ inside) (c :: text)

namespace Spells

variable {quotes : Nat} {inside text : List Char}

/-- No more than two quotes stand together inside a string over several lines. -/
theorem few_takeWhile (spells : Spells quote piece? quotes inside text) (inLine : quote ≠ '\n') :
    quotes + (inside.takeWhile (· == quote)).length ≤ 2 := by
  induction spells with
  | nil few => simpa using few
  | newLine few _ _ => simpa [inLine.symm] using few
  | quote _ ih => simp at ih ⊢; omega
  | piece few _ other _ _ _ => simpa [other] using few

/-- An inside of quotes stands for itself. -/
theorem eq_of_all (spells : Spells quote piece? quotes inside text) (inLine : quote ≠ '\n')
    (all : inside.all (· == quote) = true) : inside = text := by
  induction spells with
  | nil _ => rfl
  | newLine _ _ _ => simp [inLine.symm] at all
  | quote _ ih => rw [ih (by simpa using all)]
  | piece _ _ other _ _ _ => simp [other] at all

end Spells

/-- The closing quotes are found right behind the last character that is no quote. -/
theorem closing?_append {inside : List Char} (few : (inside.takeWhile (· == quote)).length ≤ 2)
    {behind : List Char} (stops : Text.Stops (· == quote) behind) :
    closing? quote (inside ++ quote :: quote :: quote :: behind) =
      if inside.all (· == quote) then some (inside, behind) else none := by
  have around : inside ++ quote :: quote :: quote :: behind =
      inside ++ [quote, quote, quote] ++ behind := by simp
  unfold closing?
  by_cases all : inside.all (· == quote) = true
  · have quotes : ∀ c ∈ inside, (c == quote) = true := List.all_eq_true.mp all
    have run : (inside ++ [quote, quote, quote] ++ behind).takeWhile (· == quote) =
        inside ++ [quote, quote, quote] :=
      Text.takeWhile_run (by simpa [or_imp, forall_and] using quotes) stops
    have whole : inside.takeWhile (· == quote) = inside := by
      simpa using Text.takeWhile_run quotes Text.stops_nil
    have same : inside = List.replicate inside.length quote :=
      List.eq_replicate_iff.mpr ⟨rfl, by simpa using quotes⟩
    have kept : min (inside.length + 3 - 3) 2 = inside.length := by
      rw [whole] at few
      omega
    have drop : (inside ++ [quote, quote, quote] ++ behind).drop (inside.length + 3) = behind :=
      List.drop_left' (by simp)
    simp only [around, run, List.length_append, List.length_cons, List.length_nil, kept, drop, all,
      ← same]
    simp
  · have shorter : (inside.takeWhile (· == quote)).length ≠ inside.length := by
      intro whole
      have same := (List.takeWhile_prefix (· == quote)).eq_of_length whole
      exact all (same ▸ List.all_takeWhile)
    have less : (inside.takeWhile (· == quote)).length < 3 := by omega
    simp [List.takeWhile_append, shorter, less, all]

/-- The inside is read as the text that it spells. -/
theorem multiLineWithin_append {quotes : Nat} {inside text : List Char}
    (spells : Spells quote piece? quotes inside text) (printed : isPrintable quote = true)
    {behind : List Char} (stops : Text.Stops (· == quote) behind) {bound : Nat}
    (enough : inside.length < bound) :
    multiLineWithin quote piece? bound (inside ++ quote :: quote :: quote :: behind) =
      some (text, behind) := by
  have inLine : quote ≠ '\n' := by
    rintro rfl
    simp [isPrintable] at printed
  have opened {c : Char} (other : c ≠ quote) (rest : List Char) :
      closing? quote (c :: rest) = none := by
    simp [closing?, other]
  induction spells generalizing bound with
  | nil few =>
    obtain ⟨bound, rfl⟩ := Nat.exists_eq_add_one_of_ne_zero (show bound ≠ 0 by omega)
    have closed := @closing?_append quote [] (Nat.zero_le 2) behind stops
    rw [List.nil_append] at closed ⊢
    simp [multiLineWithin, closed]
  | @newLine _ inside _ _ _ ih =>
    obtain ⟨bound, rfl⟩ := Nat.exists_eq_add_one_of_ne_zero (show bound ≠ 0 by omega)
    rw [List.length_cons] at enough
    have rest := ih (show inside.length < bound by omega)
    simp [multiLineWithin, opened inLine.symm, newLine?, rest, prepend]
  | @quote _ inside _ rest ih =>
    obtain ⟨bound, rfl⟩ := Nat.exists_eq_add_one_of_ne_zero (show bound ≠ 0 by omega)
    rw [List.length_cons] at enough
    have few := (Spells.quote rest).few_takeWhile inLine
    have closed := closing?_append (Nat.le_of_add_left_le few) stops
    rw [List.cons_append] at closed ⊢
    rw [multiLineWithin, closed]
    by_cases all : (quote :: inside).all (· == quote) = true
    · rw [if_pos all, (Spells.quote rest).eq_of_all inLine all]
    · have read := ih (show inside.length < bound by omega)
      simp [all, newLine?_of_isPrintable printed, read, prepend]
  | @piece _ c first more inside _ _ shown other reads _ ih =>
    obtain ⟨bound, rfl⟩ := Nat.exists_eq_add_one_of_ne_zero (show bound ≠ 0 by omega)
    rw [List.cons_append, List.length_cons, List.length_append] at enough
    have rest := ih (show inside.length < bound by omega)
    have read := reads (inside ++ quote :: quote :: quote :: behind)
    rw [List.append_assoc]
    rw [List.cons_append] at read ⊢
    simp [multiLineWithin, opened other, newLine?_of_isPrintable shown, other, read, rest, prepend]

/-- A line end right behind the opening quotes is passed over, and it is put there if the text could
begin with one. -/
theorem multiLine?_append {inside text : List Char} (spells : Spells quote piece? 0 inside text)
    (printed : isPrintable quote = true) {behind : List Char}
    (stops : Text.Stops (· == quote) behind) :
    multiLine? quote piece? (opening text ++ inside ++ quote :: quote :: quote :: behind) =
      some (text, behind) := by
  have passed : (newLine? (opening text ++ inside ++ quote :: quote :: quote :: behind)).getD
      (opening text ++ inside ++ quote :: quote :: quote :: behind) =
        inside ++ quote :: quote :: quote :: behind := by
    by_cases inLines : '\n' ∈ text
    · simp [opening, inLines, newLine?]
    · have begins : newLine? (inside ++ quote :: quote :: quote :: behind) = none := by
        cases spells with
        | nil _ => exact newLine?_of_isPrintable printed _
        | newLine _ _ => simp at inLines
        | quote _ => exact newLine?_of_isPrintable printed _
        | piece _ shown _ _ _ => exact newLine?_of_isPrintable shown _
      simp [opening, inLines, begins]
  unfold multiLine?
  rw [passed]
  refine multiLineWithin_append spells printed stops ?_
  rw [List.length_append]
  omega

end MultiLine

/-- What is written between tripled double quotes spells the text. -/
theorem spells_multiLineInside (text : List Char) {quotes : Nat} (few : quotes ≤ 2) :
    Spells '"' basicPiece? quotes (multiLineInside quotes text) text := by
  induction text generalizing quotes with
  | nil => exact .nil few
  | cons c rest ih =>
    unfold multiLineInside
    split
    · next isEnd => exact isEnd ▸ .newLine few (ih (Nat.zero_le 2))
    · split
      · next _ isQuote =>
        obtain ⟨rfl, fewer⟩ := isQuote
        exact .quote (ih fewer)
      · obtain ⟨first, more, written, printed, other⟩ := escape_eq_cons c
        have reads := basicPiece?_escape c
        rw [written] at reads ⊢
        exact .piece few printed other reads (ih (Nat.zero_le 2))

/-- Quotes in a row do not matter before another character. -/
theorem hasTriple_replicate_append {quote c : Char} (other : c ≠ quote) {quotes : Nat}
    (few : quotes ≤ 2) (rest : List Char) :
    hasTriple quote (List.replicate quotes quote ++ c :: rest) = hasTriple quote rest := by
  have differs : (c == quote) = false := beq_eq_false_iff_ne.mpr other
  have alone : hasTriple quote (c :: rest) = hasTriple quote rest := by
    match rest with
    | [] => rfl
    | [_] => rfl
    | _ :: _ :: _ => simp [hasTriple, differs]
  have second : hasTriple quote (quote :: c :: rest) = hasTriple quote rest := by
    cases rest <;> simp [hasTriple, differs, alone]
  match quotes with
  | 0 => exact alone
  | 1 => exact second
  | 2 => simpa [hasTriple, differs] using second

/-- A text without three single quotes in a row spells itself. -/
theorem spells_self {text : List Char} (plain : ∀ c ∈ text, isControl c = false) {quotes : Nat}
    (few : quotes ≤ 2) (apart : hasTriple '\'' (List.replicate quotes '\'' ++ text) = false) :
    Spells '\'' literalPiece? quotes text text := by
  induction text generalizing quotes with
  | nil => exact .nil few
  | cons c rest ih =>
    obtain ⟨plainFirst, plainRest⟩ := List.forall_mem_cons.mp plain
    by_cases isEnd : c = '\n'
    · subst isEnd
      rw [hasTriple_replicate_append (by decide) few] at apart
      exact .newLine few (ih plainRest (Nat.zero_le 2) apart)
    by_cases isQuote : c = '\''
    · subst isQuote
      have more : List.replicate quotes '\'' ++ '\'' :: rest =
          List.replicate (quotes + 1) '\'' ++ rest := by
        rw [List.replicate_succ', List.append_assoc, List.singleton_append]
      rw [more] at apart
      have fewer : quotes + 1 ≤ 2 := by
        refine Nat.lt_of_le_of_ne few fun same => ?_
        simp [same, hasTriple, List.replicate] at apart
      exact .quote (ih plainRest fewer apart)
    · rw [hasTriple_replicate_append isQuote few] at apart
      have literal := isLiteral_of_isControl plainFirst isEnd isQuote
      have printed := isPrintable_of_isControl plainFirst isEnd
      have reads (behind : List Char) : literalPiece? (c :: [] ++ behind) = some ([c], behind) := by
        simp [literalPiece?, literal]
      exact Spells.piece few printed isQuote reads (ih plainRest (Nat.zero_le 2) apart)

/-! ### Strings in any style -/

/-- The style can hold the text. A style that has escapes can hold any text. -/
def Style.Holds (text : List Char) : Style → Prop
  | basic => True
  | literal => ∀ c ∈ text, isLiteral c = true
  | multiLineBasic => True
  | multiLineLiteral => (∀ c ∈ text, isControl c = false) ∧ hasTriple '\'' text = false

/-- The chosen style can hold the text. -/
theorem holds_choose (text : List Char) : (Style.choose text).Holds text := by
  unfold Style.choose
  dsimp only
  split
  · trivial
  split
  · next plain =>
    simp only [Bool.and_eq_true, Bool.not_eq_true', List.any_eq_false, List.contains_eq_mem,
      decide_eq_false_iff_not] at plain
    obtain ⟨⟨noControl, inLine⟩, noQuote⟩ := plain
    intro c listed
    exact isLiteral_of_isControl (by simpa using noControl c listed)
      (fun same => inLine (same ▸ listed)) (fun same => noQuote (same ▸ listed))
  split
  · trivial
  split
  · next plain =>
    simp only [Bool.and_eq_true, Bool.not_eq_true', List.any_eq_false] at plain
    exact ⟨fun c listed => by simpa using plain.1 c listed, plain.2⟩
  split <;> trivial

/-- A quote, which begins a string or goes on with one that is empty. -/
def isQuote (c : Char) : Bool :=
  c == '"' || c == '\''

/-- A text in the basic style is read back. -/
theorem read?_basic (text : List Char) {behind : List Char} (stops : Text.Stops isQuote behind) :
    read? (Style.basic.write text ++ behind) = some (text, behind) := by
  have single : ∀ rest, text.flatMap escape ++ '"' :: behind ≠ '"' :: '"' :: rest := by
    intro rest same
    cases text with
    | nil => simp [(List.cons.inj same).2, isQuote] at stops
    | cons c _ =>
      obtain ⟨first, _, written, -, other⟩ := escape_eq_cons c
      rw [List.flatMap_cons, written] at same
      exact other (List.cons.inj same).1
  rw [Style.write, List.cons_append, List.append_assoc, List.singleton_append, read?,
    basic?_escape]
  exact single

/-- A text in the literal style is read back. -/
theorem read?_literal {text : List Char} (inside : ∀ c ∈ text, isLiteral c = true)
    {behind : List Char} (stops : Text.Stops isQuote behind) :
    read? (Style.literal.write text ++ behind) = some (text, behind) := by
  have single : ∀ rest, text ++ '\'' :: behind ≠ '\'' :: '\'' :: rest := by
    intro rest same
    cases text with
    | nil => simp [(List.cons.inj same).2, isQuote] at stops
    | cons c _ => simp [(List.cons.inj same).1, isLiteral] at inside
  rw [Style.write, List.cons_append, List.append_assoc, List.singleton_append, read?,
    literal?_append inside]
  exact single

/-- What is written for a string begins with a quote. -/
theorem write_eq_cons (text : List Char) :
    ∃ first more, write text = first :: more ∧ isQuote first = true := by
  unfold write
  cases Style.choose text <;> exact ⟨_, _, rfl, by decide⟩

/-- A string is read back in the style that is chosen for it. -/
theorem read?_write (text : List Char) {behind : List Char} (stops : Text.Stops isQuote behind) :
    read? (write text ++ behind) = some (text, behind) := by
  have holds := holds_choose text
  unfold write
  cases style : Style.choose text with
  | basic => exact read?_basic text stops
  | literal =>
    rw [style] at holds
    exact read?_literal holds stops
  | multiLineBasic =>
    have spells := spells_multiLineInside text (Nat.zero_le 2)
    have read := multiLine?_append spells (by decide)
      (stops.mono fun c same => by simp_all [isQuote])
    simpa [Style.write, read?] using read
  | multiLineLiteral =>
    rw [style] at holds
    have spells : Spells '\'' literalPiece? 0 text text :=
      spells_self holds.1 (Nat.zero_le 2) holds.2
    have read := multiLine?_append spells (by decide)
      (stops.mono fun c same => by simp_all [isQuote])
    simpa [Style.write, read?] using read

end SchemaGraph.Toml.Quoted
