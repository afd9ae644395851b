import LineCalc.Proofs.Binary64.Nearest

/-!
# Rounding to binary64

An exact magnitude is rounded to the nearest multiple of its last place, which is the smallest power of
two that leaves fifty-three binary digits and no less than the smallest positive value. Arithmetic hands
over an integral part with two bits at a place that is fine enough, and what comes out is the rounded
magnitude in its canonical form.
-/

set_option autoImplicit false

namespace LineCalc.Binary64

open Float.Model Float.Model.UnpackedFloat

/-- The exponent of the last place that is kept of a magnitude. -/
def placeOf (magnitude : ℚ) : ℤ :=
  max (Int.log 2 magnitude - 52) (-1074)

/-- The nearest magnitude whose last place is kept, with no bound above. -/
def roundMagnitude (magnitude : ℚ) : ℚ :=
  nearestEven (magnitude / 2 ^ placeOf magnitude) * 2 ^ placeOf magnitude

/-- The mantissa fills its digits unless the exponent is the smallest there is. -/
structure Canonical (mantissa : ℕ) (exponent : ℤ) : Prop where
  small : mantissa < 2 ^ 53
  fine : -1074 ≤ exponent
  full : 2 ^ 52 ≤ mantissa ∨ exponent = -1074

/-- A signed zero or a canonical value whose magnitude is the rounded one. -/
inductive Rounds (sign : Sign) (magnitude : ℚ) : UnpackedFloat → Prop where
  | zero (vanishes : roundMagnitude magnitude = 0) : Rounds sign magnitude (.zero sign)
  | finite {mantissa : ℕ} {exponent : ℤ} (positive : 0 < mantissa)
      (canonical : Canonical mantissa exponent)
      (rounded : roundMagnitude magnitude = mantissa * 2 ^ exponent) :
      Rounds sign magnitude (.finite sign mantissa exponent positive)

theorem two_zpow_pos (exponent : ℤ) : (0 : ℚ) < 2 ^ exponent :=
  zpow_pos two_pos exponent

theorem magnitude_pos {mantissa : ℕ} (positive : 0 < mantissa) (exponent : ℤ) :
    (0 : ℚ) < mantissa * 2 ^ exponent :=
  mul_pos (Nat.cast_pos.mpr positive) (two_zpow_pos exponent)

theorem two_zpow_le_iff {magnitude : ℚ} (positive : 0 < magnitude) {exponent : ℤ} :
    2 ^ exponent ≤ magnitude ↔ exponent ≤ Int.log 2 magnitude := by
  have law := Int.zpow_le_iff_le_log (b := 2) (x := exponent) (by decide) positive
  exact_mod_cast law

theorem lt_two_zpow_iff {magnitude : ℚ} (positive : 0 < magnitude) {exponent : ℤ} :
    magnitude < 2 ^ exponent ↔ Int.log 2 magnitude < exponent := by
  have law := Int.lt_zpow_iff_log_lt (b := 2) (x := exponent) (by decide) positive
  exact_mod_cast law

theorem log_mul_two_zpow {mantissa : ℕ} {value : ℚ} (positive : 0 < mantissa)
    (floor : (mantissa : ℚ) ≤ value) (ceiling : value < mantissa + 1) (exponent : ℤ) :
    Int.log 2 (value * 2 ^ exponent) = mantissa.log2 + exponent := by
  have power : 0 < value * 2 ^ exponent :=
    mul_pos (lt_of_lt_of_le (Nat.cast_pos.mpr positive) floor) (two_zpow_pos exponent)
  have lower : ((2 ^ mantissa.log2 : ℕ) : ℚ) ≤ value :=
    le_trans (Nat.cast_le.mpr (Nat.log2_self_le positive.ne')) floor
  have upper : value < ((2 ^ (mantissa.log2 + 1) : ℕ) : ℚ) := by
    have next : mantissa + 1 ≤ 2 ^ (mantissa.log2 + 1) := Nat.lt_log2_self
    exact lt_of_lt_of_le ceiling (by exact_mod_cast next)
  apply le_antisymm
  · apply Int.le_of_lt_add_one
    rw [← lt_two_zpow_iff power, show (mantissa.log2 : ℤ) + exponent + 1 =
      ((mantissa.log2 + 1 : ℕ) : ℤ) + exponent by push_cast; ring, zpow_add₀ two_ne_zero, zpow_natCast]
    exact mul_lt_mul_of_pos_right (by exact_mod_cast upper) (two_zpow_pos exponent)
  · rw [← two_zpow_le_iff power, zpow_add₀ two_ne_zero, zpow_natCast]
    exact mul_le_mul_of_nonneg_right (by exact_mod_cast lower) (two_zpow_pos exponent).le

theorem targetExponent_totalExponent (mantissa : ℕ) (exponent : ℤ) :
    Format.binary64.targetExponent (totalExponent mantissa exponent) =
      max (mantissa.log2 + exponent - 52) (-1074) := by
  simp only [Format.targetExponent, totalExponent, Format.mantissaBits, Format.minExponent]
  omega

/-- An integral part at a place that is fine enough is shifted to the last place that is kept. -/
private theorem max_targetExponent {mantissa : ℕ} {value : ℚ} (positive : 0 < value)
    (floor : (mantissa : ℚ) ≤ value) (ceiling : value < mantissa + 1) {exponent : ℤ}
    (fine : exponent ≤ placeOf (value * 2 ^ exponent)) :
    max exponent (Format.binary64.targetExponent (totalExponent mantissa exponent)) =
      placeOf (value * 2 ^ exponent) := by
  rw [targetExponent_totalExponent]
  unfold placeOf at fine ⊢
  rcases Nat.eq_zero_or_pos mantissa with rfl | filled
  · have below : value * 2 ^ exponent < 2 ^ exponent := by
      have less : value < 1 := by simpa using ceiling
      exact mul_lt_of_lt_one_left (two_zpow_pos exponent) less
    have log := (lt_two_zpow_iff (mul_pos positive (two_zpow_pos exponent))).mp below
    simp only [Nat.log2_zero, Nat.cast_zero]
    omega
  · rw [log_mul_two_zpow filled floor ceiling] at fine ⊢
    omega

/-- Shifting to the last place keeps the value and what the bits say of it. -/
private theorem shiftToTargetExponent_spec {mantissa : ℕ} {exponent : ℤ} {accuracy : Accuracy} {value : ℚ}
    (marks : Marks (ExtendedMantissa.ofMantissaAndAccuracy mantissa accuracy) value)
    (positive : 0 < value) (fine : exponent ≤ placeOf (value * 2 ^ exponent)) :
    ∃ bits, shiftToTargetExponent Format.binary64 mantissa exponent accuracy =
        (bits, placeOf (value * 2 ^ exponent)) ∧
      Marks bits (value * 2 ^ exponent / 2 ^ placeOf (value * 2 ^ exponent)) := by
  have floor := marks.floor
  have ceiling := marks.ceiling
  rw [mantissa_ofMantissaAndAccuracy] at floor ceiling
  have place := max_targetExponent positive floor ceiling fine
  generalize placeOf (value * 2 ^ exponent) = last at fine place ⊢
  obtain ⟨amount, rfl⟩ := Int.le.dest fine
  have shift : (Format.binary64.targetExponent (totalExponent mantissa exponent) -
      exponent).toNat = amount := by
    omega
  refine ⟨ExtendedMantissa.ofMantissaAndAccuracy mantissa accuracy >>> amount, ?_, ?_⟩
  · simp only [shiftToTargetExponent, shiftToExponent, shift]
  · have scaled : value * 2 ^ exponent / 2 ^ (exponent + amount) = value / 2 ^ amount := by
      rw [zpow_add₀ two_ne_zero, zpow_natCast, mul_comm value,
        mul_div_mul_left _ _ (two_zpow_pos exponent).ne']
    rw [scaled]
    exact marks.shiftRight amount

/-- After rounding there is nothing left to shift, unless a digit was carried beyond the first. -/
private theorem shiftToTargetExponent_exact {mantissa : ℕ} {exponent : ℤ} (small : mantissa ≤ 2 ^ 53)
    (fine : -1074 ≤ exponent) :
    ∃ bits last, shiftToTargetExponent Format.binary64 mantissa exponent .exact = (bits, last) ∧
      (mantissa < 2 ^ 53 ∧ bits.mantissa = mantissa ∧ last = exponent ∨
        mantissa = 2 ^ 53 ∧ bits.mantissa = 2 ^ 52 ∧ last = exponent + 1) := by
  rcases Nat.lt_or_eq_of_le small with less | rfl
  · have digits : mantissa.log2 ≤ 52 := by
      rcases Nat.eq_zero_or_pos mantissa with rfl | positive
      · decide
      · exact Nat.le_of_lt_succ ((Nat.log2_lt positive.ne').mpr less)
    have shift : (Format.binary64.targetExponent (totalExponent mantissa exponent) -
        exponent).toNat = 0 := by
      rw [targetExponent_totalExponent]
      omega
    refine ⟨_, _, rfl, .inl ⟨less, ?_, ?_⟩⟩
    · rw [shift]
      rfl
    · rw [shift, Nat.cast_zero, add_zero]
  · have digits : (2 ^ 53 : ℕ).log2 = 53 := by decide
    have shift : (Format.binary64.targetExponent (totalExponent (2 ^ 53) exponent) -
        exponent).toNat = 1 := by
      rw [targetExponent_totalExponent, digits]
      omega
    refine ⟨_, _, rfl, .inr ⟨rfl, ?_, ?_⟩⟩
    · rw [shift]
      rfl
    · rw [shift, Nat.cast_one]

theorem nearestEven_place_le {magnitude : ℚ} (positive : 0 < magnitude) :
    nearestEven (magnitude / 2 ^ placeOf magnitude) ≤ 2 ^ 53 ∧
      (2 ^ 52 ≤ nearestEven (magnitude / 2 ^ placeOf magnitude) ∨ placeOf magnitude = -1074) := by
  constructor
  · apply nearestEven_le
    rw [div_le_iff₀ (two_zpow_pos _), Nat.cast_pow, Nat.cast_ofNat, ← zpow_natCast,
      ← zpow_add₀ two_ne_zero]
    apply le_of_lt
    rw [lt_two_zpow_iff positive]
    unfold placeOf
    omega
  · by_cases smallest : placeOf magnitude = -1074
    · exact .inr smallest
    · refine .inl (le_nearestEven ?_)
      rw [le_div_iff₀ (two_zpow_pos _), Nat.cast_pow, Nat.cast_ofNat, ← zpow_natCast,
        ← zpow_add₀ two_ne_zero, two_zpow_le_iff positive]
      unfold placeOf at smallest ⊢
      omega

/-- Rounding an exact result of which the bits at a fine place are known. -/
theorem roundWithAccuracy_rounds (sign : Sign) {mantissa : ℕ} {exponent : ℤ} {accuracy : Accuracy}
    {value : ℚ} (marks : Marks (ExtendedMantissa.ofMantissaAndAccuracy mantissa accuracy) value)
    (positive : 0 < value) (fine : exponent ≤ placeOf (value * 2 ^ exponent)) :
    Rounds sign (value * 2 ^ exponent)
      (roundWithAccuracy Format.binary64 sign mantissa exponent accuracy) := by
  obtain ⟨bits, shifted, kept⟩ := shiftToTargetExponent_spec marks positive fine
  have product : 0 < value * 2 ^ exponent := mul_pos positive (two_zpow_pos exponent)
  obtain ⟨small, full⟩ := nearestEven_place_le product
  have rounded : roundMagnitude (value * 2 ^ exponent) =
      nearestEven (value * 2 ^ exponent / 2 ^ placeOf (value * 2 ^ exponent)) *
        2 ^ placeOf (value * 2 ^ exponent) := rfl
  have lowest : -1074 ≤ placeOf (value * 2 ^ exponent) := le_max_right _ _
  rw [← kept.roundedMantissa_eq] at small full rounded
  obtain ⟨final, last, carried, outcome⟩ := shiftToTargetExponent_exact small lowest
  simp only [roundWithAccuracy, shifted, carried]
  rcases outcome with ⟨less, same, rfl⟩ | ⟨most, digits, rfl⟩
  · rw [← same] at rounded full less
    split
    · rename_i vanishes
      apply Rounds.zero
      rw [rounded, vanishes, Nat.cast_zero, zero_mul]
    · exact .finite _ ⟨less, lowest, full⟩ rounded
  · rw [dif_neg (by omega)]
    refine .finite _ ⟨by omega, by omega, by omega⟩ ?_
    rw [rounded, most, digits, zpow_add₀ two_ne_zero, zpow_one]
    push_cast
    ring

/-- A magnitude below a representable one is not rounded beyond it. -/
theorem roundMagnitude_le {magnitude : ℚ} (positive : 0 < magnitude) {mantissa : ℕ} {exponent : ℤ}
    (small : mantissa < 2 ^ 53) (fine : -1074 ≤ exponent)
    (below : magnitude ≤ mantissa * 2 ^ exponent) :
    roundMagnitude magnitude ≤ mantissa * 2 ^ exponent := by
  have place : placeOf magnitude ≤ exponent := by
    have less : magnitude < 2 ^ (53 + exponent) := by
      rw [zpow_add₀ two_ne_zero]
      have digits : (mantissa : ℚ) < 2 ^ (53 : ℤ) := by exact_mod_cast small
      exact lt_of_le_of_lt below (mul_lt_mul_of_pos_right digits (two_zpow_pos exponent))
    have log := (lt_two_zpow_iff positive).mp less
    unfold placeOf
    omega
  obtain ⟨amount, rfl⟩ := Int.le.dest place
  unfold roundMagnitude
  generalize placeOf magnitude = place at below
  rw [zpow_add₀ two_ne_zero, zpow_natCast, mul_left_comm] at below ⊢
  have digits : nearestEven (magnitude / 2 ^ place) ≤ mantissa * 2 ^ amount := by
    apply nearestEven_le
    rw [div_le_iff₀ (two_zpow_pos place)]
    push_cast
    linarith
  have scaled := mul_le_mul_of_nonneg_right (Nat.cast_le.mpr digits) (two_zpow_pos place).le
  push_cast at scaled
  linarith

end LineCalc.Binary64
