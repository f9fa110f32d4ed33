import SchemaGraph.Binary64

/-!
# Shortest decimal form

A finite number is written with the fewest digits that read back as the number, and among these the
digits nearest to it, or the greater magnitude of two equally near. On the grid of decimals with a
given count of digits only the two neighbours of the number can be nearest, so these are tried on
grids of one digit, two digits and so on. Seventeen digits are always enough; the exact value stands
behind them.
-/

namespace SchemaGraph.Binary64

/-- Numerator and denominator of a finite magnitude. -/
def ratio (code : Nat) : Nat × Nat :=
  (significand code * Nat.pow 2 (scale code).toNat, Nat.pow 2 (-scale code).toNat)

/-- The count of digits before the point of a positive quotient, negative or zero if zeros
follow the point. -/
def decimalOrder (numerator denominator : Nat) : Int :=
  if denominator ≤ numerator then (Decimal.digits (numerator / denominator)).length
  else 1 - ((Decimal.digits ((denominator - 1) / numerator)).length : Int)

/-- The decimal reads back as the number. -/
def readsBack (x : Binary64) (d : Decimal) : Bool :=
  ofDecimal d == x

/-- The nearest decimal with a given count of digits that reads back as the number. -/
def onGrid? (x : Binary64) (count : Nat) : Option Decimal :=
  let (numerator, denominator) := ratio x.code
  let exponent := decimalOrder numerator denominator - count
  let scaled := numerator * Nat.pow 10 (-exponent).toNat
  let unit := denominator * Nat.pow 10 exponent.toNat
  let below : Decimal := Decimal.trim ⟨x.negative, scaled / unit, exponent⟩
  let above : Decimal := Decimal.trim ⟨x.negative, scaled / unit + 1, exponent⟩
  if readsBack x below && (!readsBack x above || 2 * (scaled % unit) < unit) then some below
  else if readsBack x above then some above
  else none

/-- The value of a finite number, digit for digit. -/
def exact (x : Binary64) : Decimal :=
  if scale x.code < 0 then
    ⟨x.negative, significand x.code * Nat.pow 5 (-scale x.code).toNat, scale x.code⟩
  else ⟨x.negative, significand x.code * Nat.pow 2 (scale x.code).toNat, 0⟩

/-- The shortest decimal that reads back as a finite number, the nearest one of its length. -/
def shortest (x : Binary64) : Decimal :=
  if x.code = 0 then ⟨x.negative, 0, 0⟩
  else ((List.range 17).findSome? fun i => onGrid? x (i + 1)).getD x.exact

/-- The text of a number: its shortest decimal form written out, or the word for infinity. -/
def render (x : Binary64) : List Char :=
  if x.isInfinite then (if x.negative then ['-'] else []) ++ ['i', 'n', 'f']
  else x.shortest.render

end SchemaGraph.Binary64
