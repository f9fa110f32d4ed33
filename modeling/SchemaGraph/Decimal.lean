/-!
# Decimal numbers

A decimal number is a sign, a coefficient and a power of ten. This module reads signed
integers and numbers with a decimal point, and writes a number out in full, without a power of
ten and without needless zeros. Only ASCII digits count as digits.
-/

namespace SchemaGraph

/-- The number `coefficient * 10 ^ exponent`, negated if `negative` is set. -/
structure Decimal where
  negative : Bool
  coefficient : Nat
  exponent : Int
deriving DecidableEq, Repr

namespace Decimal

/-- The value of a row of digits. -/
def natural (digits : List Char) : Nat :=
  Nat.ofDigitChars 10 digits 0

/-- Take a sign off the front of a text; no sign means not negative. -/
def splitSign : List Char → Bool × List Char
  | '-' :: rest => (true, rest)
  | '+' :: rest => (false, rest)
  | text => (false, text)

/-- Read an integer: an optional sign and at least one digit, nothing else. -/
def readInteger? (text : List Char) : Option Int :=
  let (negative, digits) := splitSign text
  if digits.isEmpty || !digits.all Char.isDigit then none
  else some (if negative then -(natural digits : Int) else natural digits)

/-- Read the exponent behind the digits of a number; no exponent means zero. -/
def readExponent? : List Char → Option Int
  | [] => some 0
  | c :: rest => if c = 'e' || c = 'E' then readInteger? rest else none

/-- Read a number with a decimal point: an optional sign, digits with one point, at least one
digit before or behind it, and an optional exponent. -/
def read? (text : List Char) : Option Decimal :=
  let (negative, unsigned) := splitSign text
  let whole := unsigned.takeWhile Char.isDigit
  match unsigned.dropWhile Char.isDigit with
  | '.' :: rest =>
    let fraction := rest.takeWhile Char.isDigit
    if whole.isEmpty && fraction.isEmpty then none
    else
      (readExponent? (rest.dropWhile Char.isDigit)).map fun exponent =>
        ⟨negative, natural (whole ++ fraction), exponent - fraction.length⟩
  | _ => none

/-- The digits of a natural number, without leading zeros. -/
def digits (n : Nat) : List Char :=
  Nat.toDigits 10 n

/-- The same number with the zeros at the end of its coefficient moved into the exponent. -/
def trim (d : Decimal) : Decimal :=
  if d.coefficient ≠ 0 ∧ d.coefficient % 10 = 0 then
    trim { d with coefficient := d.coefficient / 10, exponent := d.exponent + 1 }
  else d
termination_by d.coefficient
decreasing_by
  omega

/-- The coefficient written out with its point in place. -/
def positional (coefficient : Nat) (exponent : Int) : List Char :=
  let row := digits coefficient
  let places := (-exponent).toNat
  if 0 ≤ exponent then row ++ List.replicate exponent.toNat '0'
  else if places < row.length then
    row.take (row.length - places) ++ '.' :: row.drop (row.length - places)
  else '0' :: '.' :: (List.replicate (places - row.length) '0' ++ row)

/-- The number written out in full. -/
def render (d : Decimal) : List Char :=
  (if d.negative then ['-'] else []) ++ positional d.coefficient d.exponent

end Decimal

/-- The integer fits into 64 bits with a sign. -/
def isInteger64 (n : Int) : Bool :=
  -0x8000000000000000 ≤ n && n < 0x8000000000000000

/-- An integer written with a sign only if it is negative. -/
def renderInteger (n : Int) : List Char :=
  (if n < 0 then ['-'] else []) ++ Decimal.digits n.natAbs

end SchemaGraph
