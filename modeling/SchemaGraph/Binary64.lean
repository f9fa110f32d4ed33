import SchemaGraph.Decimal

/-!
# Binary64 numbers

The numbers of the IEEE 754 format binary64 except the ones that are not a number. A number is
a sign and a code: the codes count the magnitudes upwards from zero, so that the nearest
magnitude of a positive quotient is found by one division, and a carry out of the significand
is simply the next code. The code of infinity is the greatest.
-/

namespace SchemaGraph

/-- A sign and the position of a magnitude among all magnitudes. -/
structure Binary64 where
  negative : Bool
  code : Nat
  code_le : code ≤ 0x7FF0000000000000
deriving DecidableEq, Repr

namespace Binary64

/-- The code of infinity. -/
def infinityCode : Nat :=
  0x7FF0000000000000

/-- The code of the least normal magnitude, which is the least significand of normal ones. -/
def leastNormal : Nat :=
  0x10000000000000

/-- A magnitude is infinite. -/
def isInfinite (x : Binary64) : Bool :=
  x.code == infinityCode

/-- The 64 bits of the number. -/
def bits (x : Binary64) : Nat :=
  (if x.negative then 0x8000000000000000 else 0) + x.code

/-- The significand of a finite magnitude. -/
def significand (code : Nat) : Nat :=
  if code < leastNormal then code else leastNormal + code % leastNormal

/-- The power of two that goes with the significand of a finite magnitude. -/
def scale (code : Nat) : Int :=
  if code < leastNormal then -1074 else (code / leastNormal : Nat) - 1075

/-- Round a quotient to the nearest natural number, a half to the even neighbour. -/
def roundHalfEven (numerator denominator : Nat) : Nat :=
  let quotient := numerator / denominator
  let twice := 2 * (numerator % denominator)
  if twice < denominator then quotient
  else if denominator < twice then quotient + 1
  else quotient + quotient % 2

/-- The greatest power of two that is no greater than a positive quotient. -/
def binaryOrder (numerator denominator : Nat) : Int :=
  let guess : Int := (numerator.log2 : Int) - denominator.log2
  if numerator * Nat.pow 2 (-guess).toNat < denominator * Nat.pow 2 guess.toNat then guess - 1
  else guess

/-- The code of the magnitude nearest to a positive quotient. -/
def nearestCode (numerator denominator : Nat) : Nat :=
  let scale := max (-1074) (binaryOrder numerator denominator - 52)
  let significand :=
    roundHalfEven (numerator * Nat.pow 2 (-scale).toNat) (denominator * Nat.pow 2 scale.toNat)
  min infinityCode ((scale + 1074).toNat * leastNormal + significand)

/-- The code of the magnitude nearest to a decimal number.

A number far outside the range of the format is recognised by its count of digits. -/
def codeOfDecimal (coefficient : Nat) (exponent : Int) : Nat :=
  let size := exponent + (Decimal.digits coefficient).length
  if coefficient = 0 ∨ size < -330 then 0
  else if 310 < size then infinityCode
  else nearestCode (coefficient * Nat.pow 10 exponent.toNat) (Nat.pow 10 (-exponent).toNat)

/-- No decimal is rounded beyond infinity, so every rounding has a code. -/
theorem codeOfDecimal_le (coefficient : Nat) (exponent : Int) :
    codeOfDecimal coefficient exponent ≤ infinityCode := by
  unfold codeOfDecimal
  dsimp only
  split
  · exact Nat.zero_le _
  · split
    · exact Nat.le_refl _
    · exact Nat.min_le_left _ _

/-- The number nearest to a decimal number, a half going to the even neighbour. -/
def ofDecimal (d : Decimal) : Binary64 :=
  ⟨d.negative, codeOfDecimal d.coefficient d.exponent, codeOfDecimal_le _ _⟩

end Binary64

end SchemaGraph
