import SchemaGraph.Text.Hexadecimal

/-!
# JSON tokens

The grammar of JSON below the level of arrays and objects: the text is cut into punctuation,
words, numbers and strings. A string whose escapes leave a surrogate unpaired spells no text;
it is a token all the same.
-/

namespace SchemaGraph.Json

/-- A token of a JSON text. -/
inductive Token
  | openArray
  | closeArray
  | openObject
  | closeObject
  | colon
  | comma
  | null
  | boolean (value : Bool)
  | natural (value : Nat)
  | numeral (text : String)
  /-- A string; its text is missing if the escapes spell none. -/
  | string (text : Option String)
deriving DecidableEq, Repr

namespace Token

/-- The blanks of JSON. -/
def isSpace (c : Char) : Bool :=
  c == ' ' || c == '\t' || c == '\n' || c == '\r'

/-- What a backslash and a character other than `u` stand for. -/
def escaped? : Char → Option Char
  | '"' => some '"'
  | '\\' => some '\\'
  | '/' => some '/'
  | 'b' => some '\x08'
  | 'f' => some '\x0c'
  | 'n' => some '\n'
  | 'r' => some '\r'
  | 't' => some '\t'
  | _ => none

/-- The code units of a string behind its opening quote, and the text behind its closing one.
A character is one unit here; an escape may give half of a surrogate pair. -/
def units? : List Char → Option (List Nat × List Char)
  | [] => none
  | '"' :: rest => some ([], rest)
  | '\\' :: 'u' :: a :: b :: c :: d :: rest =>
    match Text.hexNatural? [a, b, c, d] with
    | some unit => (units? rest).map fun (units, behind) => (unit :: units, behind)
    | none => none
  | '\\' :: c :: rest =>
    match escaped? c with
    | some plain => (units? rest).map fun (units, behind) => (plain.toNat :: units, behind)
    | none => none
  | c :: rest =>
    if c.toNat < 0x20 then none
    else (units? rest).map fun (units, behind) => (c.toNat :: units, behind)

/-- The first half of a surrogate pair. -/
def isHigh (unit : Nat) : Bool :=
  0xD800 ≤ unit && unit < 0xDC00

/-- The second half of a surrogate pair. -/
def isLow (unit : Nat) : Bool :=
  0xDC00 ≤ unit && unit < 0xE000

/-- Join surrogate pairs; an unpaired half spells nothing. -/
def join? : List Nat → Option (List Char)
  | [] => some []
  | high :: low :: rest =>
    if isHigh high then
      if isLow low then
        (join? rest).map (Char.ofNat (0x10000 + (high - 0xD800) * 0x400 + (low - 0xDC00)) :: ·)
      else none
    else if isLow high then none
    else (join? (low :: rest)).map (Char.ofNat high :: ·)
  | [unit] => if isHigh unit || isLow unit then none else some [Char.ofNat unit]

/-- The digits of a fraction with their point, if there is one. -/
def fraction? : List Char → Option (List Char × List Char)
  | '.' :: rest =>
    let digits := rest.takeWhile Char.isDigit
    if digits.isEmpty then none else some ('.' :: digits, rest.dropWhile Char.isDigit)
  | text => some ([], text)

/-- A sign in front of the digits of an exponent. -/
def exponentSign : List Char → List Char × List Char
  | '+' :: rest => (['+'], rest)
  | '-' :: rest => (['-'], rest)
  | text => ([], text)

/-- An exponent with its letter, if there is one. -/
def exponent? : List Char → Option (List Char × List Char)
  | [] => some ([], [])
  | c :: rest =>
    if c = 'e' || c = 'E' then
      let (sign, behind) := exponentSign rest
      let digits := behind.takeWhile Char.isDigit
      if digits.isEmpty then none
      else some (c :: (sign ++ digits), behind.dropWhile Char.isDigit)
    else some ([], c :: rest)

/-- The digits before the point: a zero alone, or digits that do not begin with zero. -/
def integer? : List Char → Option (List Char × List Char)
  | '0' :: rest => some (['0'], rest)
  | text =>
    let digits := text.takeWhile Char.isDigit
    if digits.isEmpty then none else some (digits, text.dropWhile Char.isDigit)

/-- A number without a sign: its integer part, and its fraction and exponent. -/
def unsigned? (text : List Char) : Option (List Char × List Char × List Char) := do
  let (whole, rest) ← integer? text
  let (fraction, rest) ← fraction? rest
  let (exponent, rest) ← exponent? rest
  some (whole, fraction ++ exponent, rest)

/-- A number at the front of a text. -/
def number? : List Char → Option (Token × List Char)
  | '-' :: text =>
    (unsigned? text).map fun (whole, more, rest) =>
      (numeral (String.ofList ('-' :: (whole ++ more))), rest)
  | text =>
    (unsigned? text).map fun (whole, more, rest) =>
      if more.isEmpty then (natural (Nat.ofDigitChars 10 whole 0), rest)
      else (numeral (String.ofList (whole ++ more)), rest)

/-- The token at the front of a text that does not begin with a blank. -/
def first? : List Char → Option (Token × List Char)
  | '[' :: rest => some (openArray, rest)
  | ']' :: rest => some (closeArray, rest)
  | '\x7b' :: rest => some (openObject, rest)
  | '\x7d' :: rest => some (closeObject, rest)
  | ':' :: rest => some (colon, rest)
  | ',' :: rest => some (comma, rest)
  | 'n' :: 'u' :: 'l' :: 'l' :: rest => some (null, rest)
  | 't' :: 'r' :: 'u' :: 'e' :: rest => some (boolean true, rest)
  | 'f' :: 'a' :: 'l' :: 's' :: 'e' :: rest => some (boolean false, rest)
  | '"' :: rest =>
    (units? rest).map fun (units, behind) =>
      (string ((join? units).map String.ofList), behind)
  | text => number? text

/-- The tokens of a text, at most as many as the bound. -/
def scanWithin : Nat → List Char → Option (List Token)
  | _, [] => some []
  | 0, _ => none
  | bound + 1, c :: rest =>
    if isSpace c then scanWithin bound rest
    else
      match first? (c :: rest) with
      | some (token, behind) => (scanWithin bound behind).map (token :: ·)
      | none => none

/-- The tokens of a text. A token or blank takes at least one character. -/
def scan? (text : List Char) : Option (List Token) :=
  scanWithin text.length text

end Token

end SchemaGraph.Json
