import SchemaGraph.Instant
import SchemaGraph.Text.Runs

/-!
# Instants as text

An instant is written as in RFC 3339: date, `T`, time and `Z`. The fraction of a second takes no
digits, three, six or nine, as few as it needs, and a year outside 0 to 9999 has a sign. Reading
is more liberal: there may be blanks around the parts of the date and of the time, a blank may
stand in place of the `T`, and the time may be that of a zone, given by its distance from UTC.
-/

namespace SchemaGraph.Instant

open SchemaGraph.Text

/-- The digits of a number, with zeros in front up to a width. -/
def padded (width n : Nat) : List Char :=
  let digits := Nat.toDigits 10 n
  List.replicate (width - digits.length) '0' ++ digits

/-- The text of a year. -/
def yearChars (year : Int) : List Char :=
  if 0 ≤ year ∧ year ≤ 9999 then padded 4 year.toNat
  else (if year < 0 then '-' else '+') :: padded 4 year.natAbs

/-- The text of a fraction of a second, counted in nanoseconds. -/
def fractionChars (nanoseconds : Nat) : List Char :=
  if nanoseconds = 0 then []
  else if nanoseconds % 1000000 = 0 then '.' :: padded 3 (nanoseconds / 1000000)
  else if nanoseconds % 1000 = 0 then '.' :: padded 6 (nanoseconds / 1000)
  else '.' :: padded 9 nanoseconds

/-- The characters of an instant. -/
def chars (instant : Instant) : List Char :=
  let date := Date.ofDays (instant.seconds / 86400)
  let time := (instant.seconds % 86400).toNat
  let leap := 1000000000 ≤ instant.nanoseconds
  let second := if leap then time % 60 + 1 else time % 60
  let fraction := if leap then instant.nanoseconds - 1000000000 else instant.nanoseconds
  yearChars date.year ++ '-' :: (padded 2 date.month ++ '-' :: (padded 2 date.day ++
    'T' :: (padded 2 (time / 3600) ++ ':' :: (padded 2 (time / 60 % 60) ++
      ':' :: (padded 2 second ++ fractionChars fraction ++ ['Z'])))))

/-- An instant written out. -/
def text (instant : Instant) : String :=
  String.ofList instant.chars

/-- Read a number of at least one digit and at most so many. -/
def number? (most : Nat) (text : List Char) : Option (Nat × List Char) :=
  let digits := (text.take most).takeWhile Char.isDigit
  if digits.isEmpty then none
  else some (Nat.ofDigitChars 10 digits 0, text.drop digits.length)

/-- Read a number of any length. -/
def longNumber? (text : List Char) : Option (Nat × List Char) :=
  number? text.length text

/-- Read a year: four digits at most, or any number of them behind a sign. -/
def year? (text : List Char) : Option (Int × List Char) :=
  match dropBlanks text with
  | '-' :: rest => (longNumber? rest).map fun (year, rest) => (-(year : Int), rest)
  | '+' :: rest => (longNumber? rest).map fun (year, rest) => ((year : Int), rest)
  | text => (number? 4 text).map fun (year, rest) => ((year : Int), rest)

/-- Read a mark and a number of at most two digits, with blanks in front of either. -/
def markedNumber? (mark : Char) (text : List Char) : Option (Nat × List Char) :=
  match dropBlanks text with
  | c :: rest => if c = mark then number? 2 (dropBlanks rest) else none
  | [] => none

/-- Read a date. -/
def date? (text : List Char) : Option (Date × List Char) := do
  let (year, rest) ← year? text
  let (month, rest) ← markedNumber? '-' rest
  let (day, rest) ← markedNumber? '-' rest
  let date ← Date.ofParts? year month day
  some (date, rest)

/-- Read the fraction of a second, in nanoseconds; digits behind the ninth are passed over. -/
def fraction? : List Char → Option (Nat × List Char)
  | '.' :: text =>
    let digits := (text.take 9).takeWhile Char.isDigit
    if digits.isEmpty then none
    else
      some (Nat.ofDigitChars 10 digits 0 * Nat.pow 10 (9 - digits.length),
        text.dropWhile Char.isDigit)
  | text => some (0, text)

/-- Read a time: the second of the day, and the nanoseconds within it. The sixtieth second of a
minute is a leap second. -/
def time? (text : List Char) : Option (Nat × Nat × List Char) := do
  let (hour, rest) ← number? 2 (dropBlanks text)
  let (minute, rest) ← markedNumber? ':' rest
  let (second, rest) ← markedNumber? ':' rest
  let (fraction, rest) ← fraction? rest
  if hour < 24 ∧ minute < 60 ∧ second ≤ 60 then
    if second = 60 then some (hour * 3600 + minute * 60 + 59, fraction + 1000000000, rest)
    else some (hour * 3600 + minute * 60 + second, fraction, rest)
  else none

/-- Read the sign of a distance from UTC; the last one is the minus sign proper. -/
def zoneSign? : Char → Option Int
  | '+' => some 1
  | '-' => some (-1)
  | '\u2212' => some (-1)
  | _ => none

/-- Read the minutes of a distance from UTC: two digits, and less than an hour. -/
def zoneMinutes? : List Char → Option (Nat × List Char)
  | a :: b :: rest =>
    if '0' ≤ a ∧ a ≤ '5' ∧ b.isDigit then some (Nat.ofDigitChars 10 [a, b] 0, rest) else none
  | _ => none

/-- Read a distance from UTC, in seconds; it is less than a day. -/
def distance? : List Char → Option (Int × List Char)
  | sign :: a :: b :: rest => do
    let sign ← zoneSign? sign
    if a.isDigit ∧ b.isDigit then
      let (minutes, rest) ← zoneMinutes? (rest.dropWhile fun c => c == ':' || isBlank c)
      let seconds := Nat.ofDigitChars 10 [a, b] 0 * 3600 + minutes * 60
      if seconds < 86400 then some (sign * seconds, rest) else none
    else none
  | _ => none

/-- Read a zone: a word for UTC itself, or a distance from it. -/
def zone? (text : List Char) : Option (Int × List Char) :=
  match text with
  | 'Z' :: rest => some (0, rest)
  | 'z' :: rest => some (0, rest)
  | a :: b :: c :: rest =>
    if a.toUpper = 'U' ∧ b.toUpper = 'T' ∧ c.toUpper = 'C' then some (0, rest)
    else distance? text
  | _ => none

/-- Take the separator of date and time off the front. -/
def separator? : List Char → Option (List Char)
  | c :: rest => if c = 'T' ∨ c = 't' ∨ c = ' ' then some rest else none
  | [] => none

/-- Read an instant. -/
def ofChars? (text : List Char) : Option Instant := do
  let (date, rest) ← date? text
  let (second, nanoseconds, rest) ← time? (← separator? rest)
  let (zone, rest) ← zone? (dropBlanks rest)
  if dropBlanks rest = [] ∧ -262143 ≤ date.year ∧ date.year ≤ 262142 then
    ofParts? (date.toDays * 86400 + second - zone) nanoseconds
  else none

/-- Read an instant. -/
def ofText? (text : String) : Option Instant :=
  ofChars? text.toList

end SchemaGraph.Instant
