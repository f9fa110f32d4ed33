import SchemaGraph.Instant
import SchemaGraph.Text.Hexadecimal
import SchemaGraph.Toml

/-!
# Bare words of TOML

Booleans, numbers, dates and times are written as bare words; only a date and a time may be
separated by a blank. A word spells at most one of them. Between two digits of a number there
may be one underscore. An integer has 64 bits, and digits that would round to positive infinity
are refused.
-/

namespace SchemaGraph.Toml

/-- The characters of bare words. -/
def isWordChar (c : Char) : Bool :=
  c.isAlphanum || c == '_' || c == '+' || c == '-' || c == '.' || c == ':'

/-- The digits of a number, without the underscores between them. -/
def digitGroups? (isDigit : Char → Bool) : List Char → Option (List Char)
  | [] => none
  | [c] => if isDigit c then some [c] else none
  | c :: '_' :: rest => if isDigit c then (digitGroups? isDigit rest).map (c :: ·) else none
  | c :: rest => if isDigit c then (digitGroups? isDigit rest).map (c :: ·) else none

/-- The digits of a number, which may begin with a zero only if they are that zero. -/
def wholeDigits? (text : List Char) : Option (List Char) :=
  match digitGroups? Char.isDigit text with
  | some ('0' :: _ :: _) => none
  | digits => digits

/-- Read an integer of base sixteen, eight or two behind its mark, or of base ten. -/
def unboundedInteger? : List Char → Option Int
  | '0' :: 'x' :: text => do
    let digits ← digitGroups? (fun c => (Text.hexValue? c).isSome) text
    let value ← Text.hexNatural? digits
    some value
  | '0' :: 'o' :: text =>
    (digitGroups? (fun c => '0' ≤ c && c ≤ '7') text).map (Nat.ofDigitChars 8 · 0)
  | '0' :: 'b' :: text =>
    (digitGroups? (fun c => c == '0' || c == '1') text).map (Nat.ofDigitChars 2 · 0)
  | text =>
    let (negative, unsigned) := Decimal.splitSign text
    (wholeDigits? unsigned).map fun digits =>
      if negative then -(Decimal.natural digits : Int) else Decimal.natural digits

/-- Read an integer of 64 bits. -/
def integer? (text : List Char) : Option Int :=
  match unboundedInteger? text with
  | some value => if isInteger64 value then some value else none
  | none => none

/-- Read the digits behind a decimal point, if there is one. -/
def fraction? : List Char → Option (List Char)
  | [] => some []
  | '.' :: text => digitGroups? Char.isDigit text
  | _ => none

/-- Read an exponent with its letter, if there is one. -/
def exponent? : List Char → Option Int
  | [] => some 0
  | _ :: text =>
    let (negative, unsigned) := Decimal.splitSign text
    (digitGroups? Char.isDigit unsigned).map fun digits =>
      if negative then -(Decimal.natural digits : Int) else Decimal.natural digits

/-- Read a number with a fraction or an exponent. -/
def decimal? (text : List Char) : Option Decimal := do
  let (negative, unsigned) := Decimal.splitSign text
  let isMark (c : Char) : Bool := c == 'e' || c == 'E'
  let mantissa := unsigned.takeWhile (!isMark ·)
  let power := unsigned.dropWhile (!isMark ·)
  let point := mantissa.dropWhile (· != '.')
  let whole ← wholeDigits? (mantissa.takeWhile (· != '.'))
  let fraction ← fraction? point
  let exponent ← exponent? power
  if point.isEmpty && power.isEmpty then none
  else some ⟨negative, Decimal.natural (whole ++ fraction), exponent - fraction.length⟩

/-- Read a float. -/
def float? (text : List Char) : Option (Option Binary64) :=
  let (negative, unsigned) := Decimal.splitSign text
  if unsigned = "nan".toList then some none
  else if unsigned = "inf".toList then
    some (some ⟨negative, Binary64.infinityCode, Nat.le_refl _⟩)
  else
    match decimal? text with
    | some d =>
      let value := Binary64.ofDecimal d
      if value.isInfinite && !value.negative then none else some (some value)
    | none => none

/-- Read a number of exactly so many digits. -/
def fixedNumber? (width : Nat) (text : List Char) : Option (Nat × List Char) :=
  let digits := text.take width
  if digits.length = width ∧ digits.all Char.isDigit then
    some (Decimal.natural digits, text.drop width)
  else none

/-- Take a mark off the front. -/
def mark? (mark : Char) : List Char → Option (List Char)
  | c :: rest => if c = mark then some rest else none
  | [] => none

/-- The text behind a date at the front. -/
def behindDate? (text : List Char) : Option (List Char) := do
  let (year, rest) ← fixedNumber? 4 text
  let (month, rest) ← fixedNumber? 2 (← mark? '-' rest)
  let (day, rest) ← fixedNumber? 2 (← mark? '-' rest)
  let _ ← Date.ofParts? year month day
  some rest

/-- The text behind an hour and a minute at the front. -/
def behindMinute? (text : List Char) : Option (List Char) := do
  let (hour, rest) ← fixedNumber? 2 text
  let (minute, rest) ← fixedNumber? 2 (← mark? ':' rest)
  if hour < 24 ∧ minute < 60 then some rest else none

/-- The text behind the fraction of a second, if there is one. -/
def behindFraction? : List Char → Option (List Char)
  | '.' :: c :: rest => if c.isDigit then some (rest.dropWhile Char.isDigit) else none
  | '.' :: [] => none
  | text => some text

/-- The text behind a time of day at the front. A minute may have a leap second. -/
def behindTime? (text : List Char) : Option (List Char) := do
  let (second, rest) ← fixedNumber? 2 (← mark? ':' (← behindMinute? text))
  if second ≤ 60 then behindFraction? rest else none

/-- The whole text is a distance from UTC, or there is none. -/
def isZone : List Char → Bool
  | [] => true
  | c :: rest =>
    if c == 'Z' || c == 'z' then rest.isEmpty
    else (c == '+' || c == '-') && behindMinute? rest == some []

/-- The whole text is a date. -/
def isDate (text : List Char) : Bool :=
  behindDate? text == some []

/-- The whole text is a time of day. -/
def isTime (text : List Char) : Bool :=
  behindTime? text == some []

/-- The whole text is a date and a time of day. -/
def isDateTime (text : List Char) : Bool :=
  match behindDate? text with
  | some (c :: rest) =>
    (c == 'T' || c == 't' || c == ' ') &&
      match behindTime? rest with
      | some zone => isZone zone
      | none => false
  | _ => false

/-- What a bare word spells. -/
def ofWord? (word : List Char) : Option Toml :=
  if word = "true".toList then some (boolean true)
  else if word = "false".toList then some (boolean false)
  else if isDate word || isTime word || isDateTime word then some (moment (String.ofList word))
  else
    match integer? word with
    | some value => some (integer value)
    | none => (float? word).map float

/-- Cut a bare word off the front. A date takes the time behind a blank with it. -/
def splitWord (text : List Char) : List Char × List Char :=
  let word := text.takeWhile isWordChar
  let rest := text.dropWhile isWordChar
  match rest with
  | ' ' :: c :: more =>
    if isDate word && c.isDigit then
      (word ++ ' ' :: (c :: more).takeWhile isWordChar, (c :: more).dropWhile isWordChar)
    else (word, rest)
  | _ => (word, rest)

/-- The value of a bare word at the front. -/
def scalar? (text : List Char) : Option (Toml × List Char) :=
  let (word, rest) := splitWord text
  (ofWord? word).map (·, rest)

end SchemaGraph.Toml
