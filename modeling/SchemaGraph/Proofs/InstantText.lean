import SchemaGraph.Instant.Text
import SchemaGraph.Proofs.CalendarDates
import SchemaGraph.Proofs.WrittenDigits

/-!
# Instants are written and read back

Every instant that can be counted is read back from its text, with all digits of its fraction, in a
leap second and in years of more than four digits or before the year 0.
-/

namespace SchemaGraph

/-- Digits are visible, so that nothing is skipped in front of a number. -/
theorem Text.isBlank_of_isDigit {c : Char} (digit : c.isDigit = true) : isBlank c = false := by
  have range : 48 ≤ c.toNat ∧ c.toNat ≤ 57 := by
    simpa [Char.isDigit, UInt32.le_iff_toNat_le] using digit
  simp only [isBlank, Bool.or_eq_false_iff, Bool.and_eq_false_iff, decide_eq_false_iff_not,
    beq_eq_false_iff_ne]
  omega

namespace Instant

open Text

/-! ### Numbers of a fixed width -/

/-- A padded number has digits only. -/
theorem isDigit_of_mem_padded {width n : Nat} {c : Char} (listed : c ∈ padded width n) :
    c.isDigit = true := by
  obtain zero | digit := List.mem_append.mp listed
  · rw [List.eq_of_mem_replicate zero]
    decide
  · exact isDigit_of_mem_toDigits digit

/-- A padded number has at least one digit. -/
theorem padded_ne_nil (width n : Nat) : padded width n ≠ [] := by
  simp [padded, Nat.toDigits_ne_nil]

/-- A padded number is as wide as it should be if it fits. -/
theorem length_padded {width n : Nat} (fits : (Nat.toDigits 10 n).length ≤ width) :
    (padded width n).length = width := by
  simp only [padded, List.length_append, List.length_replicate]
  omega

/-- The zeros in front do not change its value. -/
theorem ofDigitChars_padded (width n : Nat) : Nat.ofDigitChars 10 (padded width n) 0 = n := by
  rw [padded, Nat.ofDigitChars_append, Nat.ofDigitChars_replicate_zero, Nat.mul_zero]
  exact Nat.ofDigitChars_ten_toDigits

/-- A padded number begins with a digit. -/
theorem exists_padded (width n : Nat) :
    ∃ c more, padded width n = c :: more ∧ c.isDigit = true := by
  cases digits : padded width n with
  | nil => exact absurd digits (padded_ne_nil width n)
  | cons c more => exact ⟨c, more, rfl, isDigit_of_mem_padded (digits ▸ List.mem_cons_self)⟩

/-- No blanks stand in front of a padded number. -/
theorem dropBlanks_padded (width n : Nat) (rest : List Char) :
    dropBlanks (padded width n ++ rest) = padded width n ++ rest := by
  obtain ⟨c, more, digits, digit⟩ := exists_padded width n
  rw [digits]
  exact Stops.dropWhile_eq (by simpa using isBlank_of_isDigit digit)

/-- Nothing is dropped in front of a visible character. -/
theorem dropBlanks_cons {c : Char} (visible : isBlank c = false) (rest : List Char) :
    dropBlanks (c :: rest) = c :: rest :=
  Stops.dropWhile_eq (by simpa using visible)

/-- Digits are read as a number if no more of them are allowed or none follows. -/
theorem number?_append {most : Nat} {digits : List Char} (rest : List Char)
    (areDigits : ∀ c ∈ digits, c.isDigit = true) (filled : digits ≠ [])
    (fits : digits.length ≤ most) (ends : digits.length = most ∨ Stops Char.isDigit rest) :
    number? most (digits ++ rest) = some (Nat.ofDigitChars 10 digits 0, rest) := by
  have stops : Stops Char.isDigit (rest.take (most - digits.length)) := by
    obtain full | stops := ends
    · simp [full]
    · exact stops.take _
  have taken : ((digits ++ rest).take most).takeWhile Char.isDigit = digits := by
    rw [List.take_append, List.take_of_length_le fits]
    exact takeWhile_run areDigits stops
  simp [number?, taken, filled]

/-- A number that fills its width is read back whatever follows it. -/
theorem number?_padded {width n : Nat} (fits : (Nat.toDigits 10 n).length ≤ width)
    (rest : List Char) : number? width (padded width n ++ rest) = some (n, rest) := by
  have length := length_padded fits
  rw [number?_append rest (fun _ => isDigit_of_mem_padded) (padded_ne_nil width n)
    (Nat.le_of_eq length) (.inl length), ofDigitChars_padded]

/-- A padded number is read up to the first character that is no digit. -/
theorem longNumber?_padded (width n : Nat) {rest : List Char} (stops : Stops Char.isDigit rest) :
    longNumber? (padded width n ++ rest) = some (n, rest) := by
  rw [longNumber?, number?_append rest (fun _ => isDigit_of_mem_padded) (padded_ne_nil width n)
    (by simp) (.inr stops), ofDigitChars_padded]

/-- Months, days and times of the day have two digits at most. -/
theorem length_toDigits_two {n : Nat} (small : n < 100) : (Nat.toDigits 10 n).length ≤ 2 :=
  (Nat.length_toDigits_le_iff (by decide) (by decide)).mpr small

/-! ### The parts of a date and of a time -/

/-- A number of two digits behind its mark is read, and no digit behind it. -/
theorem markedNumber?_padded {mark : Char} (visible : isBlank mark = false) {n : Nat}
    (small : n < 100) (rest : List Char) :
    markedNumber? mark (mark :: (padded 2 n ++ rest)) = some (n, rest) := by
  rw [markedNumber?, dropBlanks_cons visible]
  simp [dropBlanks_padded, number?_padded (length_toDigits_two small)]

/-- A year is read back, whatever its sign and its length. -/
theorem year?_yearChars (year : Int) (rest : List Char) :
    year? (yearChars year ++ '-' :: rest) = some (year, '-' :: rest) := by
  have stops : Stops Char.isDigit ('-' :: rest) := by simp
  have long := longNumber?_padded 4 year.natAbs stops
  unfold yearChars
  split
  · next short =>
    have fits : (Nat.toDigits 10 year.toNat).length ≤ 4 :=
      (Nat.length_toDigits_le_iff (by decide) (by decide)).mpr (by omega)
    have whole : (year.toNat : Int) = year := by omega
    have read := number?_padded fits ('-' :: rest)
    rw [year?, dropBlanks_padded]
    obtain ⟨c, more, digits, digit⟩ := exists_padded 4 year.toNat
    rw [digits, List.cons_append] at read ⊢
    split
    · next same => simp [(List.cons.inj same).1] at digit
    · next same => simp [(List.cons.inj same).1] at digit
    · simp [read, whole]
  · next signed =>
    by_cases negative : year < 0
    · have whole : -(year.natAbs : Int) = year := by omega
      rw [if_pos negative, List.cons_append, year?, dropBlanks_cons (by decide)]
      simp only [long, Option.map_some, whole]
    · have whole : (year.natAbs : Int) = year := by omega
      rw [if_neg negative, List.cons_append, year?, dropBlanks_cons (by decide)]
      simp only [long, Option.map_some, whole]

/-- The date in front of a text. -/
theorem date?_chars {date : Date} (valid : date.IsValid) (rest : List Char) :
    date? (yearChars date.year ++ '-' :: (padded 2 date.month ++ '-' ::
      (padded 2 date.day ++ rest))) = some (date, rest) := by
  have isDate := Date.ofParts?_of_isValid valid
  obtain ⟨_, lastMonth, _, lastDay⟩ := valid
  have days : date.day < 100 := by
    unfold Date.daysInMonth at lastDay
    split at lastDay
    · split at lastDay <;> omega
    · split at lastDay <;> omega
  have visible : isBlank '-' = false := by decide
  have month := markedNumber?_padded visible (n := date.month) (by omega)
    ('-' :: (padded 2 date.day ++ rest))
  have day := markedNumber?_padded visible days rest
  simp [date?, year?_yearChars, month, day, isDate]

/-- Digits behind a point are a fraction of a second, up to nine of them. -/
theorem fraction?_padded {width n : Nat} (fits : (Nat.toDigits 10 n).length ≤ width)
    (positive : 0 < width) (short : width ≤ 9) :
    fraction? ('.' :: (padded width n ++ ['Z'])) = some (n * Nat.pow 10 (9 - width), ['Z']) := by
  have areDigits : ∀ c ∈ padded width n, c.isDigit = true := fun _ => isDigit_of_mem_padded
  have stops : Stops Char.isDigit ['Z'] := by simp
  have length := length_padded fits
  have taken : ((padded width n ++ ['Z']).take 9).takeWhile Char.isDigit = padded width n := by
    rw [List.take_append, List.take_of_length_le (by omega)]
    exact takeWhile_run areDigits (stops.take _)
  simp [fraction?, taken, padded_ne_nil, length, ofDigitChars_padded,
    dropWhile_run areDigits stops]

/-- The fraction of a second is read back, whether it takes no digits, three, six or nine. -/
theorem fraction?_fractionChars {nanoseconds : Nat} (small : nanoseconds < 1000000000) :
    fraction? (fractionChars nanoseconds ++ ['Z']) = some (nanoseconds, ['Z']) := by
  have fits {width n : Nat} (positive : 0 < width) (below : n < 10 ^ width) :
      (Nat.toDigits 10 n).length ≤ width :=
    (Nat.length_toDigits_le_iff (by decide) positive).mpr below
  unfold fractionChars
  split
  · next none => rw [none]; rfl
  split
  · next milli =>
    have whole : nanoseconds / 1000000 * Nat.pow 10 (9 - 3) = nanoseconds :=
      Nat.div_mul_cancel (Nat.dvd_of_mod_eq_zero milli)
    rw [List.cons_append, fraction?_padded (fits (by decide) (by omega)) (by decide) (by decide),
      whole]
  split
  · next micro =>
    have whole : nanoseconds / 1000 * Nat.pow 10 (9 - 6) = nanoseconds :=
      Nat.div_mul_cancel (Nat.dvd_of_mod_eq_zero micro)
    rw [List.cons_append, fraction?_padded (fits (by decide) (by omega)) (by decide) (by decide),
      whole]
  · have whole : nanoseconds * Nat.pow 10 (9 - 9) = nanoseconds := Nat.mul_one _
    rw [List.cons_append, fraction?_padded (fits (by decide) (by omega)) (by decide) (by decide),
      whole]

/-- The time in front of `Z`. The sixtieth second of a minute is read as its last one, with a
fraction that goes on past a whole second. -/
theorem time?_chars {hour minute second fraction : Nat} (hours : hour < 24) (minutes : minute < 60)
    (seconds : second ≤ 60) (small : fraction < 1000000000) :
    time? (padded 2 hour ++ ':' :: (padded 2 minute ++ ':' :: (padded 2 second ++
        (fractionChars fraction ++ ['Z'])))) =
      if second = 60 then some (hour * 3600 + minute * 60 + 59, fraction + 1000000000, ['Z'])
      else some (hour * 3600 + minute * 60 + second, fraction, ['Z']) := by
  have visible : isBlank ':' = false := by decide
  have hourRead := number?_padded (length_toDigits_two (n := hour) (by omega))
    (':' :: (padded 2 minute ++ ':' :: (padded 2 second ++ (fractionChars fraction ++ ['Z']))))
  have minuteRead := markedNumber?_padded visible (n := minute) (by omega)
    (':' :: (padded 2 second ++ (fractionChars fraction ++ ['Z'])))
  have secondRead := markedNumber?_padded visible (n := second) (by omega)
    (fractionChars fraction ++ ['Z'])
  rw [time?, dropBlanks_padded]
  simp only [hourRead, minuteRead, secondRead, fraction?_fractionChars small, hours, minutes,
    seconds, Option.bind_eq_bind, Option.bind_some, and_self, if_true]

/-! ### Instants -/

/-- An instant is made from its parts. -/
theorem ofParts?_parts (instant : Instant) :
    ofParts? instant.seconds instant.nanoseconds = some instant := by
  rw [ofParts?, dif_pos instant.inRange, dif_pos instant.leapAtEnd]

/-- A date and a time behind it are read as the instant that they make, if there is one. -/
theorem ofChars?_written {date : Date} (valid : date.IsValid)
    (inRange : -262143 ≤ date.year ∧ date.year ≤ 262142) {time : List Char}
    {second nanoseconds : Nat} (read : time? time = some (second, nanoseconds, ['Z'])) :
    ofChars? (yearChars date.year ++ '-' :: (padded 2 date.month ++ '-' :: (padded 2 date.day ++
        'T' :: time))) = ofParts? (date.toDays * 86400 + second) nanoseconds := by
  have noBlanks : dropBlanks ['Z'] = ['Z'] := dropBlanks_cons (by decide) []
  have nothing : dropBlanks [] = [] := rfl
  simp only [ofChars?, date?_chars valid, separator?, read, noBlanks, zone?, nothing, inRange,
    Option.bind_eq_bind, Option.bind_some, true_or, if_true, and_self, Int.sub_zero]

/-- An instant is read back from the characters that it is written in. -/
theorem ofChars?_chars (instant : Instant) : ofChars? instant.chars = some instant := by
  have valid := Date.isValid_ofDays (instant.seconds / 86400)
  have days := Date.toDays_ofDays (instant.seconds / 86400)
  obtain ⟨earliest, latest⟩ := instant.inRange
  have inRange : -262143 ≤ (Date.ofDays (instant.seconds / 86400)).year ∧
      (Date.ofDays (instant.seconds / 86400)).year ≤ 262142 :=
    Date.year_ofDays_inRange (by omega) (by omega)
  have hours : (instant.seconds % 86400).toNat / 3600 < 24 := by omega
  have minutes : (instant.seconds % 86400).toNat / 60 % 60 < 60 := by omega
  by_cases leap : 1000000000 ≤ instant.nanoseconds
  · obtain ordinary | ⟨bound, lastSecond⟩ := instant.leapAtEnd
    · omega
    have sixtieth : (instant.seconds % 86400).toNat % 60 + 1 = 60 := by omega
    have small : instant.nanoseconds - 1000000000 < 1000000000 := by omega
    have read := time?_chars hours minutes (Nat.le_of_eq sixtieth) small
    rw [if_pos sixtieth] at read
    have whole : instant.seconds / 86400 * 86400 + ((instant.seconds % 86400).toNat / 3600 * 3600 +
        (instant.seconds % 86400).toNat / 60 % 60 * 60 + 59 : Nat) = instant.seconds := by omega
    simp only [chars, leap, if_true, List.append_assoc]
    rw [ofChars?_written valid inRange read, days, whole, Nat.sub_add_cancel leap, ofParts?_parts]
  · have second : (instant.seconds % 86400).toNat % 60 ≤ 60 := by omega
    have noSixtieth : (instant.seconds % 86400).toNat % 60 ≠ 60 := by omega
    have read := time?_chars hours minutes second (Nat.lt_of_not_le leap)
    rw [if_neg noSixtieth] at read
    have whole : instant.seconds / 86400 * 86400 + ((instant.seconds % 86400).toNat / 3600 * 3600 +
        (instant.seconds % 86400).toNat / 60 % 60 * 60 +
          (instant.seconds % 86400).toNat % 60 : Nat) = instant.seconds := by omega
    simp only [chars, leap, if_false, List.append_assoc]
    rw [ofChars?_written valid inRange read, days, whole, ofParts?_parts]

/-- An instant is read back from its text. -/
theorem ofText?_text (instant : Instant) : ofText? instant.text = some instant := by
  rw [ofText?, text, String.toList_ofList, ofChars?_chars]

end Instant

end SchemaGraph
