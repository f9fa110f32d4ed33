import Mathlib.Algebra.Order.Field.Power
import Mathlib.Tactic.FieldSimp
import Mathlib.Tactic.GCongr
import Mathlib.Tactic.Linarith
import Mathlib.Tactic.Positivity
import Mathlib.Tactic.Ring
import SchemaGraph.Binary64.Shortest

/-!
# Numbers nearest to decimals

A finite magnitude is a significand times a power of two. A decimal of exactly this value is
rounded to it, so the exact value of a number reads back, and with it everything that is shown. A
decimal without places behind the point is rounded to a whole number or to infinity, since the
numbers that are not whole are so small that every whole number of their size is among the
magnitudes.
-/

namespace SchemaGraph

/-- The value of a decimal number without its sign. -/
def Decimal.magnitude (d : Decimal) : ℚ :=
  d.coefficient * 10 ^ d.exponent

namespace Binary64

/-- The value of a finite magnitude. -/
def magnitude (code : Nat) : ℚ :=
  significand code * 2 ^ scale code

/-- The number is finite and has no places behind the point. -/
def IsWhole (x : Binary64) : Prop :=
  x.isInfinite = false ∧ ∃ n : ℕ, magnitude x.code = n

/-! ### Significands and scales -/

section Codes

variable {code : Nat}

/-- Below the normal floats the code itself is the significand. -/
theorem significand_of_small (small : code < leastNormal) : significand code = code :=
  if_pos small

/-- The scale of a code below the normal floats is the least one. -/
theorem scale_of_small (small : code < leastNormal) : scale code = -1074 :=
  if_pos small

/-- The significand of a normal float has its leading bit set. -/
theorem significand_of_normal (normal : leastNormal ≤ code) :
    significand code = leastNormal + code % leastNormal :=
  if_neg (Nat.not_lt.mpr normal)

/-- The scale of a normal float is given by the upper part of its code. -/
theorem scale_of_normal (normal : leastNormal ≤ code) :
    scale code = (code / leastNormal : Nat) - 1075 :=
  if_neg (Nat.not_lt.mpr normal)

/-- The least normal float is not zero. -/
theorem leastNormal_pos : 0 < leastNormal := by
  decide

/-- A significand fits into its bits. -/
theorem significand_lt (code : Nat) : significand code < 2 * leastNormal := by
  by_cases small : code < leastNormal
  · rw [significand_of_small small]
    omega
  · have := Nat.mod_lt code leastNormal_pos
    rw [significand_of_normal (Nat.not_lt.mp small)]
    omega

/-- The significand of a normal float has no bits to spare. -/
theorem leastNormal_le_significand (normal : leastNormal ≤ code) :
    leastNormal ≤ significand code := by
  rw [significand_of_normal normal]
  exact Nat.le_add_right _ _

/-- No scale is below the least. -/
theorem least_le_scale (code : Nat) : -1074 ≤ scale code := by
  by_cases small : code < leastNormal
  · exact (scale_of_small small).ge
  · have := Nat.div_pos (Nat.not_lt.mp small) leastNormal_pos
    rw [scale_of_normal (Nat.not_lt.mp small)]
    omega

/-- No scale of a finite float is above the greatest. -/
theorem scale_le_greatest (finite : code < infinityCode) : scale code ≤ 971 := by
  by_cases small : code < leastNormal
  · rw [scale_of_small small]
    decide
  · have : code / leastNormal < 2047 := (Nat.div_lt_iff_lt_mul leastNormal_pos).mpr finite
    rw [scale_of_normal (Nat.not_lt.mp small)]
    omega

/-- A code is put together from its scale and its significand. -/
theorem code_eq (code : Nat) :
    code = (scale code + 1074).toNat * leastNormal + significand code := by
  by_cases small : code < leastNormal
  · simp [scale_of_small small, significand_of_small small]
  · have normal := Nat.not_lt.mp small
    have positive := Nat.div_pos normal leastNormal_pos
    have order : (scale code + 1074).toNat + 1 = code / leastNormal := by
      rw [scale_of_normal normal]
      omega
    have parts := Nat.div_add_mod' code leastNormal
    rw [← order, Nat.add_one_mul] at parts
    rw [significand_of_normal normal]
    omega

/-- What is put together from a scale and the significand of a normal magnitude has them. -/
theorem significand_scale {order s : Nat} (least : leastNormal ≤ s) (less : s < 2 * leastNormal)
    (isCode : code = order * leastNormal + s) :
    significand code = s ∧ scale code = order - 1074 := by
  have normal : leastNormal ≤ code := by omega
  have rest : s - leastNormal < leastNormal := by omega
  have split : code = (order + 1) * leastNormal + (s - leastNormal) := by
    rw [Nat.add_one_mul]
    omega
  constructor
  · rw [significand_of_normal normal, split, Nat.mul_add_mod_of_lt rest]
    omega
  · rw [scale_of_normal normal, split, Nat.mul_comm, Nat.mul_add_div leastNormal_pos,
      Nat.div_eq_of_lt rest]
    omega

end Codes

/-- A float above zero has a significand above zero. -/
theorem significand_pos {code : Nat} (positive : 0 < code) : 0 < significand code := by
  by_cases small : code < leastNormal
  · rwa [significand_of_small small]
  · exact leastNormal_pos.trans_le (leastNormal_le_significand (Nat.not_lt.mp small))

/-- Finite magnitudes lie between the bounds of the format. -/
theorem magnitude_bounds {code : Nat} (positive : 0 < code) (finite : code < infinityCode) :
    2 ^ (-1074 : ℤ) ≤ magnitude code ∧ magnitude code < 2 ^ (1024 : ℤ) := by
  have one_le : (1 : ℚ) ≤ significand code := by
    exact_mod_cast significand_pos positive
  have less : (significand code : ℚ) < 2 ^ (53 : ℤ) := by
    exact_mod_cast significand_lt code
  have least : (2 : ℚ) ^ (-1074 : ℤ) ≤ 2 ^ scale code :=
    zpow_le_zpow_right₀ one_le_two (least_le_scale code)
  have greatest : (2 : ℚ) ^ scale code ≤ 2 ^ (971 : ℤ) :=
    zpow_le_zpow_right₀ one_le_two (scale_le_greatest finite)
  constructor
  · calc (2 : ℚ) ^ (-1074 : ℤ) ≤ 2 ^ scale code := least
      _ ≤ significand code * 2 ^ scale code := le_mul_of_one_le_left (by positivity) one_le
  · calc (significand code : ℚ) * 2 ^ scale code
        < 2 ^ (53 : ℤ) * 2 ^ scale code := by gcongr
      _ ≤ 2 ^ (53 : ℤ) * 2 ^ (971 : ℤ) := by gcongr
      _ = 2 ^ (1024 : ℤ) := by rw [← zpow_add₀ two_ne_zero]; rfl

/-- A finite float comes before infinity in the order of codes. -/
theorem code_lt_of_finite {x : Binary64} (finite : x.isInfinite = false) :
    x.code < infinityCode := by
  have notInfinite : x.code ≠ infinityCode := by simpa [isInfinite] using finite
  exact Nat.lt_of_le_of_ne x.code_le notInfinite

/-! ### Quotients and powers of two -/

/-- The parts of a power that stand in the numerator and in the denominator. -/
theorem zpow_mul_toNat {base : ℚ} (nonzero : base ≠ 0) (order : ℤ) :
    base ^ order * base ^ (-order).toNat = base ^ order.toNat := by
  obtain ⟨n, rfl | rfl⟩ := order.eq_nat_or_neg
  · simp
  · simp [nonzero]

/-- A quotient is scaled by a power of two without leaving the natural numbers. -/
theorem scaled_lt_iff {numerator denominator : Nat} (order : ℤ) :
    numerator * Nat.pow 2 (-order).toNat < denominator * Nat.pow 2 order.toNat ↔
      (numerator : ℚ) < denominator * 2 ^ order := by
  have positive : (0 : ℚ) < 2 ^ (-order).toNat := by positivity
  rw [← mul_lt_mul_iff_left₀ positive, mul_assoc, zpow_mul_toNat two_ne_zero]
  exact_mod_cast Iff.rfl

/-- A quotient that is a multiple of a power of two is scaled to a natural number. -/
theorem scaled_eq {numerator denominator n : Nat} {order : ℤ}
    (exact : (numerator : ℚ) = denominator * (n * 2 ^ order)) :
    numerator * Nat.pow 2 (-order).toNat = n * (denominator * Nat.pow 2 order.toNat) := by
  have scaled : (numerator : ℚ) * 2 ^ (-order).toNat = n * (denominator * 2 ^ order.toNat) := by
    rw [exact, ← zpow_mul_toNat two_ne_zero order]
    ring
  exact_mod_cast scaled

/-- A number lies between two powers of two that follow each other. -/
theorem log2_bounds {n : Nat} (nonzero : n ≠ 0) :
    (2 : ℚ) ^ (n.log2 : ℤ) ≤ n ∧ (n : ℚ) < 2 ^ (n.log2 + 1 : ℤ) :=
  ⟨by exact_mod_cast Nat.log2_self_le nonzero, by exact_mod_cast Nat.lt_log2_self⟩

/-- The order of a quotient is the power of two that it reaches. -/
theorem binaryOrder_eq {numerator denominator : Nat} {order : ℤ} (positive : 0 < denominator)
    (least : denominator * (2 : ℚ) ^ order ≤ numerator)
    (less : numerator < denominator * (2 : ℚ) ^ (order + 1)) :
    binaryOrder numerator denominator = order := by
  have denominatorPos : (0 : ℚ) < denominator := by exact_mod_cast positive
  have nonzero : numerator ≠ 0 := by
    rintro rfl
    have : (0 : ℚ) < denominator * 2 ^ order := by positivity
    simp only [Nat.cast_zero] at least
    linarith
  obtain ⟨numeratorLeast, numeratorLess⟩ := log2_bounds nonzero
  obtain ⟨denominatorLeast, denominatorLess⟩ := log2_bounds positive.ne'
  -- The orders of the numerator and of the denominator differ by the order or by one more.
  have atMost : (denominator.log2 : ℤ) + order < numerator.log2 + 1 := by
    refine (zpow_lt_zpow_iff_right₀ (one_lt_two (α := ℚ))).mp ?_
    calc (2 : ℚ) ^ ((denominator.log2 : ℤ) + order)
        = 2 ^ (denominator.log2 : ℤ) * 2 ^ order := zpow_add₀ two_ne_zero _ _
      _ ≤ denominator * 2 ^ order := by gcongr
      _ ≤ numerator := least
      _ < 2 ^ (numerator.log2 + 1 : ℤ) := numeratorLess
  have atLeast : (numerator.log2 : ℤ) < denominator.log2 + 1 + (order + 1) := by
    refine (zpow_lt_zpow_iff_right₀ (one_lt_two (α := ℚ))).mp ?_
    calc (2 : ℚ) ^ (numerator.log2 : ℤ) ≤ numerator := numeratorLeast
      _ < denominator * 2 ^ (order + 1) := less
      _ ≤ 2 ^ (denominator.log2 + 1 : ℤ) * 2 ^ (order + 1) := by gcongr
      _ = 2 ^ ((denominator.log2 : ℤ) + 1 + (order + 1)) := (zpow_add₀ two_ne_zero _ _).symm
  unfold binaryOrder
  dsimp only
  split
  · rename_i below
    have isLess := least.trans_lt ((scaled_lt_iff _).mp below)
    rw [mul_lt_mul_iff_right₀ denominatorPos, zpow_lt_zpow_iff_right₀ one_lt_two] at isLess
    omega
  · rename_i notBelow
    have isLess := (not_lt.mp (mt (scaled_lt_iff _).mpr notBelow)).trans_lt less
    rw [mul_lt_mul_iff_right₀ denominatorPos, zpow_lt_zpow_iff_right₀ one_lt_two] at isLess
    omega

/-- A quotient that is a natural number is its own nearest one. -/
theorem roundHalfEven_mul {n denominator : Nat} (positive : 0 < denominator) :
    roundHalfEven (n * denominator) denominator = n := by
  rw [roundHalfEven]
  simp [positive]

/-- Rounding does not go below a natural number that the quotient reaches. -/
theorem le_roundHalfEven {n numerator denominator : Nat} (positive : 0 < denominator)
    (reached : n * denominator ≤ numerator) : n ≤ roundHalfEven numerator denominator := by
  have below : n ≤ numerator / denominator := (Nat.le_div_iff_mul_le positive).mpr reached
  unfold roundHalfEven
  dsimp only
  split
  · exact below
  · split
    · exact Nat.le_succ_of_le below
    · exact Nat.le_add_right_of_le below

/-! ### Exact decimals -/

/-- The order of a magnitude is that of its significand. -/
theorem max_order_eq_scale {code : Nat} (nonzero : 0 < code) :
    max (-1074) ((significand code).log2 + scale code - 52) = scale code := by
  by_cases small : code < leastNormal
  · have order : (significand code).log2 < 52 := by
      rw [significand_of_small small]
      exact (Nat.log2_lt nonzero.ne').mpr small
    rw [scale_of_small small]
    omega
  · have normal := Nat.not_lt.mp small
    have order : (significand code).log2 = 52 := by
      refine (Nat.log2_eq_iff (significand_pos nonzero).ne').mpr ⟨?_, significand_lt code⟩
      exact leastNormal_le_significand normal
    have := least_le_scale code
    omega

/-- A quotient of exactly the value of a magnitude is rounded to it. -/
theorem nearestCode_eq {numerator denominator code : Nat} (positive : 0 < denominator)
    (nonzero : 0 < code) (finite : code < infinityCode)
    (exact : (numerator : ℚ) = denominator * magnitude code) :
    nearestCode numerator denominator = code := by
  obtain ⟨least, less⟩ := log2_bounds (significand_pos nonzero).ne'
  have order : binaryOrder numerator denominator = (significand code).log2 + scale code := by
    apply binaryOrder_eq positive
    · rw [exact, magnitude, zpow_add₀ two_ne_zero]
      gcongr
    · have next : ((significand code).log2 : ℤ) + scale code + 1 =
          (significand code).log2 + 1 + scale code := by ring
      rw [exact, magnitude, next, zpow_add₀ two_ne_zero]
      have : (0 : ℚ) < denominator := by exact_mod_cast positive
      gcongr
  have unitPos : 0 < denominator * Nat.pow 2 (scale code).toNat :=
    Nat.mul_pos positive (Nat.pow_pos Nat.two_pos)
  unfold nearestCode
  dsimp only
  rw [order, max_order_eq_scale nonzero, scaled_eq exact, roundHalfEven_mul unitPos, ← code_eq,
    Nat.min_eq_right finite.le]

/-- A number lies between two powers of ten that follow each other, by the count of its digits. -/
theorem digits_bounds {n : Nat} (positive : 0 < n) :
    (10 : ℚ) ^ ((Decimal.digits n).length - 1 : ℤ) ≤ n ∧
      (n : ℚ) < 10 ^ ((Decimal.digits n).length : ℤ) := by
  obtain ⟨length, isLength⟩ : ∃ length, (Decimal.digits n).length = length + 1 :=
    Nat.exists_eq_add_one.mpr Nat.length_toDigits_pos
  have less : n < 10 ^ (length + 1) :=
    (Nat.length_toDigits_le_iff (by decide) (Nat.succ_pos length)).mp isLength.le
  have least : 10 ^ length ≤ n := by
    cases length with
    | zero => rwa [pow_zero]
    | succ length =>
      by_contra short
      have shorter :=
        (Nat.length_toDigits_le_iff (by decide) (Nat.succ_pos length)).mpr (not_le.mp short)
      rw [Decimal.digits] at isLength
      omega
  rw [isLength]
  constructor
  · simpa using (by exact_mod_cast least : ((10 : ℚ) ^ length ≤ n))
  · exact_mod_cast less

/-- A decimal of the value of a magnitude is zero if the magnitude is. -/
theorem coefficient_eq_zero_iff {coefficient code : Nat} {exponent : ℤ}
    (exact : (coefficient : ℚ) * 10 ^ exponent = magnitude code) :
    coefficient = 0 ↔ code = 0 := by
  have ten : (10 : ℚ) ^ exponent ≠ 0 := by positivity
  have two : (2 : ℚ) ^ scale code ≠ 0 := by positivity
  have zero : significand code = 0 ↔ code = 0 := by
    constructor
    · intro none
      by_contra nonzero
      exact (significand_pos (Nat.pos_of_ne_zero nonzero)).ne' none
    · rintro rfl
      exact significand_of_small leastNormal_pos
  calc coefficient = 0 ↔ (coefficient : ℚ) * 10 ^ exponent = 0 := by simp [ten]
    _ ↔ magnitude code = 0 := by rw [exact]
    _ ↔ significand code = 0 := by simp [magnitude, two]
    _ ↔ code = 0 := zero

/-- Powers are compared among the rationals as they are among the naturals. -/
theorem two_zpow_lt_ten_zpow {order size : Nat} (less : 2 ^ order < 10 ^ size) :
    (2 : ℚ) ^ (order : ℤ) < 10 ^ (size : ℤ) := by
  rw [zpow_natCast, zpow_natCast]
  exact_mod_cast less

/-- A decimal that has the value of a magnitude has no more digits than the format. -/
theorem size_bounds {coefficient code : Nat} {exponent : ℤ} (positive : 0 < code)
    (finite : code < infinityCode)
    (exact : (coefficient : ℚ) * 10 ^ exponent = magnitude code) :
    ¬ exponent + (Decimal.digits coefficient).length < -330 ∧
      ¬ 310 < exponent + (Decimal.digits coefficient).length := by
  obtain ⟨least, less⟩ := magnitude_bounds positive finite
  have nonzero : 0 < coefficient :=
    Nat.pos_of_ne_zero ((coefficient_eq_zero_iff exact).not.mpr positive.ne')
  obtain ⟨coefficientLeast, coefficientLess⟩ := digits_bounds nonzero
  generalize ((Decimal.digits coefficient).length : ℤ) = digits at *
  have ten : (1 : ℚ) < 10 := by norm_num
  have tiny : (10 : ℚ) ^ (-330 : ℤ) < 2 ^ (-1074 : ℤ) := by
    rw [zpow_neg, zpow_neg, inv_lt_inv₀ (by positivity) (by positivity)]
    exact two_zpow_lt_ten_zpow (by decide +kernel)
  have huge : (2 : ℚ) ^ (1024 : ℤ) < 10 ^ (310 : ℤ) := two_zpow_lt_ten_zpow (by decide +kernel)
  constructor
  · have above : (10 : ℚ) ^ (-330 : ℤ) < 10 ^ (exponent + digits) := by
      calc (10 : ℚ) ^ (-330 : ℤ) < 2 ^ (-1074 : ℤ) := tiny
        _ ≤ coefficient * 10 ^ exponent := least.trans exact.ge
        _ ≤ 10 ^ digits * 10 ^ exponent := by gcongr
        _ = 10 ^ (exponent + digits) := by rw [← zpow_add₀ (by norm_num), add_comm]
    rw [zpow_lt_zpow_iff_right₀ ten] at above
    omega
  · have below : (10 : ℚ) ^ (exponent + (digits - 1)) < 10 ^ (310 : ℤ) := by
      calc (10 : ℚ) ^ (exponent + (digits - 1)) = 10 ^ (digits - 1) * 10 ^ exponent := by
            rw [← zpow_add₀ (by norm_num), add_comm]
        _ ≤ coefficient * 10 ^ exponent := by gcongr
        _ < 2 ^ (1024 : ℤ) := exact.trans_lt less
        _ < 10 ^ (310 : ℤ) := huge
    rw [zpow_lt_zpow_iff_right₀ ten] at below
    omega

/-- A decimal that has the value of a magnitude is rounded to it. -/
theorem codeOfDecimal_eq {coefficient code : Nat} {exponent : ℤ} (finite : code < infinityCode)
    (exact : (coefficient : ℚ) * 10 ^ exponent = magnitude code) :
    codeOfDecimal coefficient exponent = code := by
  have ten : (10 : ℚ) ≠ 0 := by norm_num
  unfold codeOfDecimal
  dsimp only
  obtain rfl | positive := Nat.eq_zero_or_pos code
  · rw [if_pos (.inl ((coefficient_eq_zero_iff exact).mpr rfl))]
  · obtain ⟨notTiny, notHuge⟩ := size_bounds positive finite exact
    have nonzero := (coefficient_eq_zero_iff exact).not.mpr positive.ne'
    rw [if_neg (not_or.mpr ⟨nonzero, notTiny⟩), if_neg notHuge]
    refine nearestCode_eq (Nat.pow_pos (by decide)) positive finite ?_
    have scaled := zpow_mul_toNat ten exponent
    simp only [Nat.pow_eq, Nat.cast_mul, Nat.cast_pow, Nat.cast_ofNat]
    rw [← exact, ← scaled]
    ring

/-- A decimal of exactly the value of a number is read as the number. -/
theorem ofDecimal_eq {x : Binary64} {d : Decimal} (finite : x.isInfinite = false)
    (sign : d.negative = x.negative) (exact : d.magnitude = magnitude x.code) :
    ofDecimal d = x := by
  have code : codeOfDecimal d.coefficient d.exponent = x.code :=
    codeOfDecimal_eq (code_lt_of_finite finite) exact
  cases x
  simp_all [ofDecimal]

/-! ### Whole numbers -/

/-- A magnitude whose scale is not negative is a natural number. -/
theorem exists_magnitude_eq {code : Nat} (scaled : 0 ≤ scale code) :
    ∃ n : ℕ, magnitude code = n := by
  obtain ⟨order, isOrder⟩ := Int.eq_ofNat_of_zero_le scaled
  refine ⟨significand code * 2 ^ order, ?_⟩
  rw [magnitude, isOrder]
  push_cast
  rfl

/-- Floats of great codes are integers. -/
theorem scale_nonneg {code : Nat} (great : 1075 * leastNormal ≤ code) : 0 ≤ scale code := by
  have order : 1075 ≤ code / leastNormal := (Nat.le_div_iff_mul_le leastNormal_pos).mpr great
  have := leastNormal_pos
  rw [scale_of_normal (by omega)]
  omega

/-- A natural number that fits into a significand is a magnitude. -/
theorem exists_code {n : Nat} (positive : 0 < n) (small : n.log2 ≤ 52) :
    ∃ code, 0 < code ∧ code < infinityCode ∧ magnitude code = n := by
  obtain ⟨places, parts⟩ := Nat.exists_eq_add_of_le small
  -- The significand is the number, shifted up to the size of a normal one.
  have least : leastNormal ≤ n * 2 ^ places := by
    have shifted := Nat.mul_le_mul_right (2 ^ places) (Nat.log2_self_le positive.ne')
    rwa [← pow_add, ← parts] at shifted
  have less : n * 2 ^ places < 2 * leastNormal := by
    have shifted := Nat.mul_lt_mul_of_pos_right (Nat.lt_log2_self (n := n)) (Nat.two_pow_pos places)
    rwa [← pow_add, Nat.add_right_comm, ← parts] at shifted
  obtain ⟨isSignificand, isScale⟩ := significand_scale least less (Eq.refl
    ((n.log2 + 1022) * leastNormal + n * 2 ^ places))
  refine ⟨(n.log2 + 1022) * leastNormal + n * 2 ^ places, ?_, ?_, ?_⟩
  · exact Nat.add_pos_right _ (leastNormal_pos.trans_le least)
  · have order : (n.log2 + 1022) * leastNormal ≤ 1074 * leastNormal :=
      Nat.mul_le_mul_right _ (by omega)
    have isInfinity : infinityCode = 2047 * leastNormal := rfl
    have := leastNormal_pos
    omega
  · have isPlaces : ((n.log2 + 1022 : ℕ) : ℤ) - 1074 = -places := by omega
    rw [magnitude, isSignificand, isScale, isPlaces, zpow_neg, zpow_natCast]
    push_cast
    field_simp

/-- A natural number is rounded to a natural number. -/
theorem exists_magnitude_nearestCode {n : Nat} (positive : 0 < n) :
    ∃ m : ℕ, magnitude (nearestCode n 1) = m := by
  by_cases small : n.log2 ≤ 52
  · obtain ⟨code, nonzero, finite, isNumber⟩ := exists_code positive small
    rw [nearestCode_eq Nat.one_pos nonzero finite (by simp [isNumber])]
    exact ⟨n, isNumber⟩
  · -- The number is so great that the scale of what it is rounded to is not negative.
    obtain ⟨places, isPlaces⟩ := Nat.exists_eq_add_of_le (not_le.mp small).le
    obtain ⟨least, less⟩ := log2_bounds positive.ne'
    have order : binaryOrder n 1 = n.log2 :=
      binaryOrder_eq Nat.one_pos (by simpa using least) (by simpa using less)
    have isScale : max (-1074) (binaryOrder n 1 - 52) = places := by omega
    have isOrder : ((places : ℤ) + 1074).toNat = places + 1074 := by omega
    have reached : leastNormal * (1 * Nat.pow 2 (places : ℤ).toNat) ≤
        n * Nat.pow 2 (-(places : ℤ)).toNat := by
      have shifted := Nat.log2_self_le positive.ne'
      rw [isPlaces, pow_add] at shifted
      simpa [leastNormal] using shifted
    have unitPos : 0 < 1 * Nat.pow 2 (places : ℤ).toNat :=
      Nat.mul_pos Nat.one_pos (Nat.pow_pos Nat.two_pos)
    have rounded := le_roundHalfEven unitPos reached
    refine exists_magnitude_eq (scale_nonneg ?_)
    unfold nearestCode
    dsimp only
    rw [isScale, isOrder, Nat.le_min]
    refine ⟨by decide, ?_⟩
    calc 1075 * leastNormal = (0 + 1074) * leastNormal + leastNormal := by rfl
      _ ≤ (places + 1074) * leastNormal + leastNormal := by gcongr; exact Nat.zero_le places
      _ ≤ _ := Nat.add_le_add_left rounded _

/-- A decimal without places behind the point is read as a whole number or as infinity. -/
theorem isWhole_ofDecimal {d : Decimal} (places : 0 ≤ d.exponent)
    (finite : (ofDecimal d).isInfinite = false) : (ofDecimal d).IsWhole := by
  refine ⟨finite, ?_⟩
  obtain ⟨exponent, isExponent⟩ := Int.eq_ofNat_of_zero_le places
  unfold ofDecimal codeOfDecimal at finite ⊢
  dsimp only at finite ⊢
  split
  · exact ⟨0, by simp [magnitude, significand_of_small leastNormal_pos]⟩
  · rename_i notTiny
    split
    · exact exists_magnitude_eq (by decide)
    · have positive : 0 < d.coefficient * Nat.pow 10 d.exponent.toNat :=
        Nat.mul_pos (Nat.pos_of_ne_zero (not_or.mp notTiny).1) (Nat.pow_pos (by decide))
      have unit : Nat.pow 10 (-d.exponent).toNat = 1 := by simp [isExponent]
      rw [unit]
      exact exists_magnitude_nearestCode positive

end Binary64

end SchemaGraph
