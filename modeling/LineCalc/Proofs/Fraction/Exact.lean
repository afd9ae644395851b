import LineCalc.Proofs.Fraction.Scan
import LineCalc.Proofs.Rounding.Halves
import LineCalc.Proofs.Rounding.Nearest

/-!
# Denominators that reproduce a rounded value

A value on a decimal grid is the exact value of some quotient in binary64. For a small value the denominator
is the scale of the grid. A larger one has so few binary places that a power of two below four times the
scale clears them, and beyond those a value is an integer.
-/

set_option autoImplicit false

namespace LineCalc.Fraction

open Binary64

variable {value : Float} {magnitude : ℚ}

private theorem error_over_eq_zero {denominator : ℕ} (finite : value.isFinite = true)
    (same : nearestInteger (value * Float.ofNat denominator) / Float.ofNat denominator = value) :
    (Candidate.over value denominator).error = 0 := by
  have error : (Candidate.over value denominator).error =
      (value - nearestInteger (value * Float.ofNat denominator) / Float.ofNat denominator).abs := rfl
  rw [error, same, sub_self_of_isFinite finite, abs_zero]

/-- A denominator that makes an integer of a value is exact when that integer needs no rounding. -/
private theorem error_over_of_product {product : Float} {integer denominator : ℕ}
    (denotes : Denotes value .positive magnitude) (positive : 0 < denominator)
    (small : denominator < 2 ^ 53) (read : Denotes product .positive integer)
    (exact : magnitude * denominator = integer) : (Candidate.over value denominator).error = 0 := by
  have divisor := denotes_ofNat small
  have divisorPositive : (0 : ℚ) < denominator := Nat.cast_pos.mpr positive
  have scaled : value * Float.ofNat denominator = product := by
    have rounded := denotes.mul divisor
    rw [exact] at rounded
    exact rounded.eq_of_denotes read
  have whole : nearestInteger product = product := by
    obtain ⟨sign, nearest, signed⟩ := denotes_nearestInteger read
    rw [floor_natCast_add_half, signed (.inl rfl)] at nearest
    exact nearest.unique read
  have quotient := read.div divisor divisorPositive.ne'
  rw [(div_eq_iff divisorPositive.ne').mpr exact.symm] at quotient
  apply error_over_eq_zero denotes.isFinite
  rw [scaled, whole]
  exact quotient.eq_of_denotes denotes

/-! ## Small values -/

/-- The denominator of a quotient with a small numerator reproduces the quotient: their product is within a
quarter of the numerator. -/
theorem error_over_quotient {integer denominator : ℕ} (positive : 1 ≤ denominator)
    (smallDenominator : denominator < 2 ^ 53) (small : integer < 2 ^ 51)
    (denotes : Denotes value .positive (roundMagnitude (integer / denominator))) :
    (Candidate.over value denominator).error = 0 := by
  have least : (1 : ℚ) ≤ denominator := by exact_mod_cast positive
  have divisor := denotes_ofNat smallDenominator
  have range : (denominator : ℚ) ≤ 2 ^ 100 := by
    have digits : (denominator : ℚ) ≤ 2 ^ 53 := by exact_mod_cast smallDenominator.le
    exact le_trans digits (pow_le_pow_right₀ one_le_two (by decide))
  have near := abs_roundMagnitude_div_mul_sub_le_quarter least range small
  have nonneg := mul_nonneg (roundMagnitude_nonneg (integer / denominator)) (Nat.cast_nonneg denominator)
  obtain ⟨floor, ceiling⟩ := abs_le.mp near
  have below : roundMagnitude (integer / denominator) * denominator ≤ (1 : ℕ) * 2 ^ (52 : ℤ) := by
    have digits : (integer : ℚ) ≤ 2 ^ 51 := by exact_mod_cast small.le
    norm_num
    linarith
  have scaled := denotes.mul divisor
  have product := scaled.denotes (scaled.isFinite_of_le (by decide) (by decide) (by decide) below)
  obtain ⟨sign, nearest, signed⟩ := denotes_nearestInteger product
  rw [floor_roundMagnitude_add_half (small.trans (by decide)) nonneg (by linarith) (by linarith),
    signed (.inl rfl)] at nearest
  have bound : (integer : ℚ) / denominator ≤ integer := div_le_self (Nat.cast_nonneg _) least
  have quotient := (nearest.div divisor (by positivity)).denotes_of_le nearest bound
  exact error_over_eq_zero denotes.isFinite (quotient.unique denotes)

/-! ## Large values -/

/-- A value on the grid that is too large for the scale has few binary places. -/
private theorem two_pow_le_of_roundMagnitude {places integer mantissa digits : ℕ}
    (small : mantissa < 2 ^ 53)
    (fine : digits ≤ 1074) (large : 2 ^ 51 ≤ integer)
    (same : (mantissa : ℚ) * 2 ^ (-digits : ℤ) = roundMagnitude (integer / 10 ^ places)) :
    2 ^ digits ≤ 4 * 10 ^ places := by
  by_contra many
  have power : (0 : ℚ) < 10 ^ places := by positivity
  have scale : (4 : ℚ) * 10 ^ places ≤ 2 ^ digits := by exact_mod_cast (not_le.mp many).le
  have most : (2 : ℚ) ^ 51 ≤ integer := by exact_mod_cast large
  have split : (2 : ℚ) ^ (53 - digits : ℤ) * 2 ^ digits = 2 ^ 53 := by
    rw [← zpow_natCast, ← zpow_add₀ two_ne_zero, sub_add_cancel]
    rfl
  have least : (2 : ℚ) ^ (53 - digits : ℤ) ≤ integer / 10 ^ places := by
    rw [le_div_iff₀ power]
    have step := mul_le_mul_of_nonneg_left scale (two_zpow_pos (53 - digits : ℤ)).le
    linarith
  have positive : (0 : ℚ) < integer / 10 ^ places := lt_of_lt_of_le (two_zpow_pos _) least
  have rounded := le_roundMagnitude_of_representable positive
    (representable_two_zpow (by omega)) least
  rw [← same, zpow_sub₀ two_ne_zero, zpow_neg, div_eq_mul_inv] at rounded
  have full := le_of_mul_le_mul_right rounded (inv_pos.mpr (two_zpow_pos digits))
  have less : (mantissa : ℚ) < 2 ^ 53 := by exact_mod_cast small
  exact absurd full (not_le.mpr less)

/-- A power of two that clears the binary places of a value is exact. -/
theorem error_over_two_pow {mantissa digits : ℕ} (small : mantissa < 2 ^ 53)
    (fewDigits : 2 ^ digits < 2 ^ 53)
    (denotes : Denotes value .positive (mantissa * 2 ^ (-digits : ℤ))) :
    (Candidate.over value (2 ^ digits)).error = 0 := by
  apply error_over_of_product denotes (Nat.two_pow_pos digits) fewDigits (denotes_ofNat small)
  rw [mul_assoc, zpow_neg, zpow_natCast, Nat.cast_pow, Nat.cast_ofNat,
    inv_mul_cancel₀ (by positivity), mul_one]

theorem error_over_one {integer : ℕ} (denotes : Denotes value .positive integer) :
    (Candidate.over value 1).error = 0 :=
  error_over_of_product denotes one_pos (by decide) denotes (by rw [Nat.cast_one, mul_one])

/-- Some denominator up to four times the scale reproduces a value on the grid. -/
theorem exists_error_over_eq_zero {places : ℕ} (few : places ≤ 15)
    (denotes : Denotes value .positive magnitude) (grid : OnGrid places magnitude) :
    ∃ denominator, 1 ≤ denominator ∧ denominator ≤ 4 * 10 ^ places ∧
      (Candidate.over value denominator).error = 0 := by
  have scale : 1 ≤ 10 ^ places := Nat.one_le_pow _ _ (by decide)
  have scaleSmall : 10 ^ places ≤ 10 ^ 15 := Nat.pow_le_pow_right (by decide) few
  rcases denotes.exists_natCast_or_places with ⟨integer, rfl⟩ | ⟨mantissa, digits, small, some, fine, rfl⟩
  · exact ⟨1, le_refl 1, by omega, error_over_one denotes⟩
  · rcases grid with ⟨integer, rounded⟩ | large
    · rcases lt_or_ge integer (2 ^ 51) with less | most
      · refine ⟨10 ^ places, scale, by omega, error_over_quotient scale (by omega) less ?_⟩
        rw [rounded] at denotes
        exact_mod_cast denotes
      · have bound := two_pow_le_of_roundMagnitude small fine most rounded
        exact ⟨2 ^ digits, Nat.one_le_two_pow, bound, error_over_two_pow small (by omega) denotes⟩
    · exact absurd large (not_two_pow_le_of_places small some)

end LineCalc.Fraction
