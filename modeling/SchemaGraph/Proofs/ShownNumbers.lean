import SchemaGraph.Proofs.NearestNumbers
import SchemaGraph.Proofs.WrittenDigits

/-!
# Numbers as they are shown

A finite number is shown by a decimal that is read as the number again. The decimal has places
behind the point exactly if the number has: a decimal without them is read as a whole number, and a
whole number is met on the grid of its own count of digits at the latest.
-/

namespace SchemaGraph

namespace Decimal

/-- Whatever survives the loss of one zero at the end survives trimming. -/
theorem trim_induction {P : Decimal → Prop} (d : Decimal) (start : P d)
    (step : ∀ d : Decimal, d.coefficient % 10 = 0 → P d →
      P { d with coefficient := d.coefficient / 10, exponent := d.exponent + 1 }) : P d.trim := by
  fun_induction trim d with
  | case1 d zeros ih => exact ih (step d zeros.2 start)
  | case2 d => exact start

/-- Trimming keeps the sign. -/
theorem negative_trim (d : Decimal) : d.trim.negative = d.negative :=
  trim_induction (P := fun trimmed => trimmed.negative = d.negative) d rfl fun _ _ same => same

/-- Zeros at the end go into the exponent, which does not sink. -/
theorem le_exponent_trim (d : Decimal) : d.exponent ≤ d.trim.exponent := by
  refine trim_induction (P := fun trimmed => d.exponent ≤ trimmed.exponent) d le_rfl ?_
  intro trimmed _ risen
  exact risen.trans (by simp)

/-- Trimming a decimal keeps its magnitude. -/
theorem magnitude_trim (d : Decimal) : d.trim.magnitude = d.magnitude := by
  refine trim_induction (P := fun trimmed => trimmed.magnitude = d.magnitude) d rfl ?_
  intro trimmed zeros same
  obtain ⟨shorter, isCoefficient⟩ := Nat.dvd_of_mod_eq_zero zeros
  rw [← same, magnitude, magnitude, isCoefficient, Nat.mul_div_cancel_left _ (by decide),
    zpow_add_one₀ (by norm_num)]
  push_cast
  ring

end Decimal

namespace Binary64

variable {x : Binary64}

/-- The exact value of a finite number is read as the number. -/
theorem ofDecimal_exact (finite : x.isInfinite = false) : ofDecimal x.exact = x := by
  unfold exact
  split
  · rename_i below
    refine ofDecimal_eq finite rfl ?_
    obtain ⟨places, isPlaces⟩ := Int.exists_eq_neg_ofNat below.le
    have ten : (10 : ℚ) ^ places = 2 ^ places * 5 ^ places := by
      rw [← mul_pow]
      norm_num
    simp only [Decimal.magnitude, magnitude, isPlaces, neg_neg, Int.toNat_natCast, Nat.pow_eq,
      Nat.cast_mul, Nat.cast_pow, Nat.cast_ofNat, zpow_neg, zpow_natCast, ten]
    field_simp
  · rename_i notBelow
    obtain ⟨order, isOrder⟩ := Int.eq_ofNat_of_zero_le (not_lt.mp notBelow)
    refine ofDecimal_eq finite rfl ?_
    simp [Decimal.magnitude, magnitude, isOrder]

/-- What is found on a grid is read as the number. -/
theorem ofDecimal_of_onGrid? {count : Nat} {d : Decimal} (found : onGrid? x count = some d) :
    ofDecimal d = x := by
  unfold onGrid? at found
  simp only at found
  split at found
  · rename_i accepted
    simp_all [readsBack]
  · split at found
    · simp_all [readsBack]
    · simp at found

/-- The shortest decimal of a finite number is read as the number. -/
theorem ofDecimal_shortest (finite : x.isInfinite = false) : ofDecimal x.shortest = x := by
  unfold shortest
  split
  · rename_i zero
    refine ofDecimal_eq finite rfl ?_
    simp [Decimal.magnitude, magnitude, zero, significand_of_small leastNormal_pos]
  · cases found : (List.range 17).findSome? fun i => onGrid? x (i + 1) with
    | none => exact ofDecimal_exact finite
    | some d =>
      obtain ⟨_, _, onGrid⟩ := List.exists_of_findSome?_eq_some found
      exact ofDecimal_of_onGrid? onGrid

/-- The decimal of a number that is not whole has places behind the point. -/
theorem exponent_shortest_lt (finite : x.isInfinite = false) (notWhole : ¬ x.IsWhole) :
    x.shortest.exponent < 0 := by
  by_contra noPlaces
  have whole := isWhole_ofDecimal (not_lt.mp noPlaces)
  rw [ofDecimal_shortest finite] at whole
  exact notWhole (whole finite)

/-- On the grid of a count of digits a decimal has no more places than the count needs. -/
theorem le_exponent_of_onGrid? {count : Nat} {d : Decimal} (found : onGrid? x count = some d) :
    decimalOrder (ratio x.code).1 (ratio x.code).2 - count ≤ d.exponent := by
  unfold onGrid? at found
  simp only at found
  split at found
  · rw [← Option.some.inj found]
    exact Decimal.le_exponent_trim _
  · split at found
    · rw [← Option.some.inj found]
      exact Decimal.le_exponent_trim _
    · simp at found

/-- The numerator and the denominator are those of the magnitude. -/
theorem numerator_eq (code : Nat) :
    ((ratio code).1 : ℚ) = magnitude code * (ratio code).2 := by
  simp only [ratio, magnitude, Nat.pow_eq, Nat.cast_mul, Nat.cast_pow, Nat.cast_ofNat]
  rw [mul_assoc, zpow_mul_toNat two_ne_zero]

/-- No ratio is over zero. -/
theorem denominator_pos (code : Nat) : 0 < (ratio code).2 :=
  Nat.pow_pos Nat.two_pos

section Whole

variable {n : Nat}

/-- The ratio of a whole number is a whole number of denominators. -/
theorem ratio_of_whole (isNumber : magnitude x.code = n) :
    (ratio x.code).1 = n * (ratio x.code).2 := by
  have scaled := numerator_eq x.code
  rw [isNumber] at scaled
  exact_mod_cast scaled

/-- A float is whole exactly if its denominator divides its numerator, so it can be told by
computing. -/
theorem isWhole_iff : x.IsWhole ↔ x.isInfinite = false ∧ (ratio x.code).2 ∣ (ratio x.code).1 := by
  refine and_congr_right fun _ => ⟨?_, ?_⟩
  · rintro ⟨n, isNumber⟩
    exact Dvd.intro_left n (ratio_of_whole isNumber).symm
  · rintro ⟨n, isNumerator⟩
    have scaled := numerator_eq x.code
    rw [isNumerator, Nat.cast_mul, mul_comm] at scaled
    exact ⟨n, (mul_right_cancel₀ (Nat.cast_ne_zero.mpr (denominator_pos x.code).ne') scaled).symm⟩

instance : Decidable x.IsWhole :=
  decidable_of_iff _ isWhole_iff.symm

/-- A whole number has as many digits before the point as it is long. -/
theorem decimalOrder_of_whole (positive : 0 < n) (isNumber : magnitude x.code = n) :
    decimalOrder (ratio x.code).1 (ratio x.code).2 = (Decimal.digits n).length := by
  rw [decimalOrder, ratio_of_whole isNumber, if_pos (Nat.le_mul_of_pos_left _ positive),
    Nat.mul_div_cancel _ (denominator_pos x.code)]

/-- A whole number is met on the grid of its own count of digits. -/
theorem exists_onGrid?_of_whole (finite : x.isInfinite = false) (positive : 0 < n)
    (isNumber : magnitude x.code = n) : ∃ d, onGrid? x (Decimal.digits n).length = some d := by
  have reads : readsBack x (Decimal.trim ⟨x.negative, n, 0⟩) = true := by
    rw [readsBack, beq_iff_eq]
    refine ofDecimal_eq finite (Decimal.negative_trim _) ?_
    rw [Decimal.magnitude_trim, isNumber]
    simp [Decimal.magnitude]
  refine ⟨Decimal.trim ⟨x.negative, n, 0⟩, ?_⟩
  unfold onGrid?
  have power : Nat.pow 10 (Int.toNat 0) = 1 := rfl
  simp only [decimalOrder_of_whole positive isNumber, sub_self, neg_zero, power, Nat.mul_one]
  simp only [ratio_of_whole isNumber, Nat.mul_div_cancel _ (denominator_pos x.code),
    Nat.mul_mod_left, Nat.mul_zero, denominator_pos x.code, reads, decide_true, Bool.or_true,
    Bool.and_self, if_true]

/-- The exact value of a whole number of many digits has no places behind the point. -/
theorem exponent_exact_of_whole (isNumber : magnitude x.code = n)
    (long : 17 < (Decimal.digits n).length) : x.exact.exponent = 0 := by
  have great : 10 ^ 17 ≤ n := by
    by_contra less
    have short : (Decimal.digits n).length ≤ 17 :=
      (Nat.length_toDigits_le_iff (by decide) (by decide)).mpr (not_le.mp less)
    exact absurd long (not_lt.mpr short)
  have scaled : 0 ≤ scale x.code := by
    by_contra below
    have small : (n : ℚ) ≤ significand x.code := by
      rw [← isNumber, magnitude]
      exact mul_le_of_le_one_right (Nat.cast_nonneg _)
        (zpow_le_one_of_nonpos₀ one_le_two (not_le.mp below).le)
    have less : n < 10 ^ 17 := by
      calc n ≤ significand x.code := by exact_mod_cast small
        _ < 2 * leastNormal := significand_lt x.code
        _ < 10 ^ 17 := by decide
    exact absurd great (not_le.mpr less)
  rw [exact, if_neg (not_lt.mpr scaled)]

/-- What is smaller stands in front. -/
theorem mem_front_of_range {bound i j : Nat} {front behind : List Nat}
    (split : List.range bound = front ++ i :: behind) (less : j < i) : j ∈ front := by
  have sorted := List.pairwise_lt_range (n := bound)
  have listed : i ∈ List.range bound := by simp [split]
  have inRange : j ∈ List.range bound := List.mem_range.mpr (less.trans (List.mem_range.mp listed))
  rw [split] at sorted inRange
  have behindGreater := (List.pairwise_cons.mp (List.pairwise_append.mp sorted).2.1).1
  rcases List.mem_append.mp inRange with inFront | rest
  · exact inFront
  · rcases List.mem_cons.mp rest with rfl | inBehind
    · exact absurd less (lt_irrefl j)
    · exact absurd (behindGreater j inBehind) (not_lt.mpr less.le)

/-- The decimal of a whole number has no places behind the point. -/
theorem exponent_shortest_nonneg (whole : x.IsWhole) : 0 ≤ x.shortest.exponent := by
  obtain ⟨finite, n, isNumber⟩ := whole
  unfold shortest
  split
  · exact le_rfl
  · rename_i nonzero
    have isDecimal : (n : ℚ) * 10 ^ (0 : ℤ) = magnitude x.code := by
      rw [zpow_zero, mul_one, isNumber]
    have positive := Nat.pos_of_ne_zero ((coefficient_eq_zero_iff isDecimal).not.mpr nonzero)
    obtain ⟨count, isCount⟩ : ∃ count, (Decimal.digits n).length = count + 1 :=
      Nat.exists_eq_add_one.mpr Nat.length_toDigits_pos
    obtain ⟨met, onGrid⟩ := exists_onGrid?_of_whole finite positive isNumber
    rw [isCount] at onGrid
    cases found : (List.range 17).findSome? fun i => onGrid? x (i + 1) with
    | none =>
      have long : 17 < (Decimal.digits n).length := by
        by_contra short
        have unmet := List.findSome?_eq_none_iff.mp found count (List.mem_range.mpr (by omega))
        simp [onGrid] at unmet
      exact (exponent_exact_of_whole isNumber long).ge
    | some d =>
      -- A grid of more digits is not tried.
      obtain ⟨front, i, behind, split, here, before⟩ := List.findSome?_eq_some_iff.mp found
      have atMost : i ≤ count := by
        by_contra more
        have unmet := before count (mem_front_of_range split (not_le.mp more))
        simp [onGrid] at unmet
      have places := le_exponent_of_onGrid? here
      rw [decimalOrder_of_whole positive isNumber, isCount] at places
      rw [Option.getD_some]
      omega

end Whole

end Binary64

end SchemaGraph
