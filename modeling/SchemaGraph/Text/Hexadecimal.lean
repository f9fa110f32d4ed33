/-!
# Hexadecimal digits

Escapes name a character by its number in hexadecimal digits. Reading takes digits in either
case.
-/

namespace SchemaGraph.Text

/-- The value of a hexadecimal digit. -/
def hexValue? (c : Char) : Option Nat :=
  if c.isDigit then some (c.toNat - 48)
  else if 'a' ≤ c && c ≤ 'f' then some (c.toNat - 87)
  else if 'A' ≤ c && c ≤ 'F' then some (c.toNat - 55)
  else none

/-- The value of a row of hexadecimal digits, behind digits of a value. -/
def hexNaturalFrom? (value : Nat) : List Char → Option Nat
  | [] => some value
  | c :: rest =>
    match hexValue? c with
    | some digit => hexNaturalFrom? (value * 16 + digit) rest
    | none => none

/-- The value of a row of hexadecimal digits. -/
def hexNatural? (digits : List Char) : Option Nat :=
  hexNaturalFrom? 0 digits

/-- The lower-case hexadecimal digit of a number below sixteen. -/
def hexDigit (n : Nat) : Char :=
  Nat.digitChar n

/-- The upper-case hexadecimal digit of a number below sixteen. -/
def upperHexDigit (n : Nat) : Char :=
  (hexDigit n).toUpper

end SchemaGraph.Text
