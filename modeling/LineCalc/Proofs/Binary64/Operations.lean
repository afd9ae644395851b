import LineCalc.Proofs.Binary64.Rounding

/-!
# Products, quotients and integers in binary64

Each operation works its exact result out to a place that is fine enough and then rounds it.
-/

set_option autoImplicit false

namespace LineCalc.Binary64

open Float.Model Float.Model.UnpackedFloat

theorem mul_rounds {leftSign rightSign : Sign} {left right : ℕ} {leftExponent rightExponent : ℤ}
    (leftPositive : 0 < left) (rightPositive : 0 < right)
    (leftCanonical : Canonical left leftExponent) (rightCanonical : Canonical right rightExponent) :
    Rounds (leftSign * rightSign) (left * 2 ^ leftExponent * (right * 2 ^ rightExponent))
      (UnpackedFloat.mul Format.binary64 (.finite leftSign left leftExponent leftPositive)
        (.finite rightSign right rightExponent rightPositive)) := by
  have product : 0 < left * right := Nat.mul_pos leftPositive rightPositive
  have exact : (left : ℚ) * 2 ^ leftExponent * (right * 2 ^ rightExponent) =
      ((left * right : ℕ) : ℚ) * 2 ^ (leftExponent + rightExponent) := by
    rw [zpow_add₀ two_ne_zero]
    push_cast
    ring
  rw [exact]
  refine roundWithAccuracy_rounds _ (marks_natCast _) (Nat.cast_pos.mpr product) ?_
  unfold placeOf
  rw [log_mul_two_zpow product (le_refl _) (lt_add_one _)]
  by_cases smallest : leftExponent = -1074 ∧ rightExponent = -1074
  · omega
  · have digits : 2 ^ 52 ≤ left * right := by
      by_cases first : leftExponent = -1074
      · have full := rightCanonical.full.resolve_right fun second => smallest ⟨first, second⟩
        exact le_trans full (Nat.le_mul_of_pos_left right leftPositive)
      · have full := leftCanonical.full.resolve_right first
        exact le_trans full (Nat.le_mul_of_pos_right left rightPositive)
    have log : 52 ≤ (left * right).log2 := (Nat.le_log2 product.ne').mpr digits
    omega

/-- A quotient with the comparison of its remainder marks the exact quotient. -/
private theorem marks_div (dividend : ℕ) {divisor : ℕ} (positive : 0 < divisor) :
    Marks (ExtendedMantissa.ofMantissaAndAccuracy (dividend / divisor)
      (accuracyOfFraction (dividend % divisor) divisor)) ((dividend : ℚ) / divisor) := by
  have divisorPositive : (0 : ℚ) < divisor := Nat.cast_pos.mpr positive
  have split : (dividend : ℚ) / divisor =
      (dividend / divisor : ℕ) + ((dividend % divisor : ℕ) : ℚ) / divisor := by
    have whole : (dividend : ℚ) = divisor * (dividend / divisor : ℕ) + (dividend % divisor : ℕ) := by
      exact_mod_cast (Nat.div_add_mod dividend divisor).symm
    rw [div_eq_iff divisorPositive.ne', add_mul, div_mul_cancel₀ _ divisorPositive.ne', ← whole.symm]
    linarith
  have less : ((dividend % divisor : ℕ) : ℚ) / divisor < 1 := by
    rw [div_lt_one divisorPositive]
    exact_mod_cast Nat.mod_lt dividend positive
  rw [split]
  generalize dividend / divisor = quotient
  generalize dividend % divisor = rest at less
  unfold accuracyOfFraction
  by_cases none : rest = 0
  · rw [if_pos none, none, Nat.cast_zero, zero_div, add_zero]
    exact marks_natCast quotient
  · rw [if_neg none]
    have some : (0 : ℚ) < rest / divisor :=
      div_pos (Nat.cast_pos.mpr (Nat.pos_of_ne_zero none)) divisorPositive
    apply marks_inexact quotient some less
    · rw [compare_lt_iff_lt, div_lt_div_iff₀ divisorPositive two_pos]
      norm_cast
      omega
    · rw [compare_gt_iff_gt, div_lt_div_iff₀ two_pos divisorPositive]
      norm_cast
      omega

/-- The quotient is worked out at a place that is no coarser than the last place kept. -/
private theorem divCore_fine {dividend divisor : ℕ} (dividendPositive : 0 < dividend)
    (divisorPositive : 0 < divisor) (dividendExponent divisorExponent : ℤ) :
    Format.binary64.targetExponent
        (totalExponent dividend dividendExponent - totalExponent divisor divisorExponent) ≤
      placeOf (dividend * 2 ^ dividendExponent / (divisor * 2 ^ divisorExponent)) := by
  have lower : (2 : ℚ) ^ (dividend.log2 + dividendExponent) ≤ dividend * 2 ^ dividendExponent := by
    rw [two_zpow_le_iff (magnitude_pos dividendPositive dividendExponent),
      log_mul_two_zpow dividendPositive (le_refl _) (lt_add_one _)]
  have upper : divisor * 2 ^ divisorExponent < (2 : ℚ) ^ (divisor.log2 + divisorExponent + 1) := by
    rw [lt_two_zpow_iff (magnitude_pos divisorPositive divisorExponent),
      log_mul_two_zpow divisorPositive (le_refl _) (lt_add_one _)]
    exact lt_add_one _
  have denominator := magnitude_pos divisorPositive divisorExponent
  have numerator := magnitude_pos dividendPositive dividendExponent
  have log : dividend.log2 + dividendExponent - (divisor.log2 + divisorExponent + 1) ≤
      Int.log 2 ((dividend : ℚ) * 2 ^ dividendExponent / (divisor * 2 ^ divisorExponent)) := by
    rw [← two_zpow_le_iff (div_pos numerator denominator), zpow_sub₀ two_ne_zero,
      div_le_div_iff₀ (two_zpow_pos _) denominator]
    exact mul_le_mul lower upper.le denominator.le numerator.le
  simp only [Format.targetExponent, totalExponent, Format.mantissaBits, Format.minExponent, placeOf]
  omega

/-- The quotient of two values that are not zero is rounded. -/
theorem div_rounds {dividendSign divisorSign : Sign} {dividend divisor : ℕ}
    {dividendExponent divisorExponent : ℤ} (dividendPositive : 0 < dividend)
    (divisorPositive : 0 < divisor) :
    Rounds (dividendSign / divisorSign)
      (dividend * 2 ^ dividendExponent / (divisor * 2 ^ divisorExponent))
      (UnpackedFloat.div Format.binary64 (.finite dividendSign dividend dividendExponent dividendPositive)
        (.finite divisorSign divisor divisorExponent divisorPositive)) := by
  have fine := divCore_fine dividendPositive divisorPositive dividendExponent divisorExponent
  simp only [UnpackedFloat.div, divCore]
  generalize Format.binary64.targetExponent
    (totalExponent dividend dividendExponent - totalExponent divisor divisorExponent) = target at fine ⊢
  have smaller : min (dividendExponent - divisorExponent) target ≤
      dividendExponent - divisorExponent := min_le_left _ _
  have place := le_trans (min_le_right (dividendExponent - divisorExponent) target) fine
  generalize min (dividendExponent - divisorExponent) target = last at smaller place ⊢
  obtain ⟨amount, exponents⟩ := Int.le.dest smaller
  rw [show dividendExponent - divisorExponent - last = amount by omega, Int.toNat_natCast,
    Nat.shiftLeft_eq]
  have exact : (dividend : ℚ) * 2 ^ dividendExponent / (divisor * 2 ^ divisorExponent) =
      ((dividend * 2 ^ amount : ℕ) : ℚ) / divisor * 2 ^ last := by
    have power : (2 : ℚ) ^ dividendExponent = 2 ^ last * 2 ^ amount * 2 ^ divisorExponent := by
      rw [← zpow_natCast, ← zpow_add₀ two_ne_zero, ← zpow_add₀ two_ne_zero]
      congr 1
      omega
    have positive := two_zpow_pos divisorExponent
    rw [power]
    push_cast
    field_simp
  rw [exact] at place ⊢
  have shifted : 0 < dividend * 2 ^ amount := Nat.mul_pos dividendPositive (Nat.two_pow_pos amount)
  exact roundWithAccuracy_rounds _ (marks_div _ divisorPositive)
    (div_pos (Nat.cast_pos.mpr shifted) (Nat.cast_pos.mpr divisorPositive)) place

theorem round_rounds (sign : Sign) {mantissa : ℕ} (positive : 0 < mantissa) (exponent : ℤ) :
    Rounds sign (mantissa * 2 ^ exponent) (UnpackedFloat.round Format.binary64 sign mantissa exponent) := by
  have place : placeOf (mantissa * 2 ^ exponent) =
      Format.binary64.targetExponent (totalExponent mantissa exponent) := by
    rw [targetExponent_totalExponent, placeOf,
      log_mul_two_zpow positive (le_refl _) (lt_add_one _)]
  simp only [UnpackedFloat.round, decreaseExponent]
  rw [← place]
  generalize amountOf : (exponent - placeOf (mantissa * 2 ^ exponent)).toNat = amount
  have exact : (mantissa : ℚ) * 2 ^ exponent =
      ((mantissa <<< amount : ℕ) : ℚ) * 2 ^ (exponent - amount) := by
    rw [Nat.shiftLeft_eq, zpow_sub₀ two_ne_zero, zpow_natCast]
    push_cast
    field_simp
  have fine : exponent - amount ≤ placeOf (mantissa * 2 ^ exponent) := by omega
  rw [exact] at fine ⊢
  refine roundWithAccuracy_rounds _ (marks_natCast _) (Nat.cast_pos.mpr ?_) fine
  rw [Nat.shiftLeft_eq]
  exact Nat.mul_pos positive (Nat.two_pow_pos amount)

end LineCalc.Binary64
