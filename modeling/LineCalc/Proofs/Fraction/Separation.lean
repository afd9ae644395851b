import LineCalc.Proofs.Fraction.Minimal

/-!
# Fractions within reach

Two fractions with small terms are farther apart than binary64 values are, so their quotients are rounded to
one value only if they are equal. A fraction in lowest terms is therefore found again from its binary64 quotient
by the scan, as long as its numerator and the limit of the scan are small enough together.
-/

set_option autoImplicit false

namespace LineCalc.Fraction

open Binary64
open Float.Model.UnpackedFloat (Sign)

variable {numerator denominator other divisor : ℕ}

/-! ## Separation -/

/-- The cross products of two fractions that are rounded alike are close. -/
private theorem abs_mul_sub_mul_le (positive : 1 ≤ denominator) (range : denominator ≤ 2 ^ 100)
    (otherPositive : 1 ≤ divisor) (otherRange : divisor ≤ 2 ^ 100)
    (same : roundMagnitude (other / divisor) = roundMagnitude (numerator / denominator)) :
    |(other : ℚ) * denominator - numerator * divisor| ≤
      (other * denominator + numerator * divisor) / 2 ^ 53 := by
  have first := abs_roundMagnitude_div_mul_sub_le numerator
    (show (1 : ℚ) ≤ denominator by exact_mod_cast positive) (by exact_mod_cast range)
  have second := abs_roundMagnitude_div_mul_sub_le other
    (show (1 : ℚ) ≤ divisor by exact_mod_cast otherPositive) (by exact_mod_cast otherRange)
  rw [same] at second
  generalize roundMagnitude (numerator / denominator) = rounded at first second
  have split : (other : ℚ) * denominator - numerator * divisor =
      (rounded * denominator - numerator) * divisor - (rounded * divisor - other) * denominator := by
    ring
  rw [split]
  calc _ ≤ |(rounded * denominator - numerator) * divisor| +
        |(rounded * divisor - other) * denominator| := abs_sub _ _
    _ = |rounded * denominator - numerator| * divisor + |rounded * divisor - other| * denominator := by
        rw [abs_mul, abs_mul, Nat.abs_cast, Nat.abs_cast]
    _ ≤ (numerator : ℚ) / 2 ^ 53 * divisor + other / 2 ^ 53 * denominator := by gcongr
    _ = (other * denominator + numerator * divisor) / 2 ^ 53 := by ring

/-- Fractions that are rounded alike are equal if the terms of one are small: unequal cross products would differ
by one, which is more than their sum allows. -/
private theorem mul_eq_of_roundMagnitude_eq (positive : 1 ≤ divisor) (below : divisor ≤ denominator)
    (range : denominator < 2 ^ 53) (small : numerator * denominator ≤ 2 ^ 50)
    (same : roundMagnitude (other / divisor) = roundMagnitude (numerator / denominator)) :
    other * denominator = numerator * divisor := by
  have huge : 2 ^ 53 ≤ 2 ^ 100 := by decide
  have close := abs_mul_sub_mul_le (positive.trans below) (range.le.trans huge) positive
    ((below.trans range.le).trans huge) same
  have product : (numerator : ℚ) * divisor ≤ 2 ^ 50 := by
    exact_mod_cast (Nat.mul_le_mul_left numerator below).trans small
  obtain ⟨lower, upper⟩ := abs_le.mp close
  by_contra apart
  rcases Nat.lt_or_gt_of_ne apart with less | more
  · have step : (other : ℚ) * denominator + 1 ≤ numerator * divisor := by exact_mod_cast less
    linarith
  · have step : (numerator : ℚ) * divisor + 1 ≤ other * denominator := by exact_mod_cast more
    linarith

/-! ## Fractions that are found again -/

/-- A fraction in lowest terms whose numerator and whose denominators up to a limit are small together. -/
structure InReach (fraction : Fraction) (maxDenominator : Int) : Prop where
  positive : 1 ≤ fraction.denominator
  bounded : (fraction.denominator : Int) ≤ maxDenominator
  coprime : fraction.numerator.natAbs.Coprime fraction.denominator
  small : fraction.numerator.natAbs * maxDenominator ^ 2 ≤ 2 ^ 50 * fraction.denominator

variable {fraction : Fraction} {maxDenominator : Int}

private theorem InReach.mul_limit_le (within : fraction.InReach maxDenominator) :
    fraction.numerator.natAbs * maxDenominator.toNat ≤ 2 ^ 50 := by
  obtain ⟨limit, rfl⟩ := Int.eq_ofNat_of_zero_le (le_trans (Int.natCast_nonneg _) within.bounded)
  have bounded : fraction.denominator ≤ limit := by exact_mod_cast within.bounded
  have small : fraction.numerator.natAbs * limit ^ 2 ≤ 2 ^ 50 * fraction.denominator := by
    exact_mod_cast within.small
  have positive : 0 < limit := lt_of_lt_of_le within.positive bounded
  rw [Int.toNat_natCast]
  apply Nat.le_of_mul_le_mul_right _ positive
  calc fraction.numerator.natAbs * limit * limit = fraction.numerator.natAbs * limit ^ 2 := by ring
    _ ≤ 2 ^ 50 * fraction.denominator := small
    _ ≤ 2 ^ 50 * limit := Nat.mul_le_mul_left _ bounded

private theorem InReach.numerator_le (within : fraction.InReach maxDenominator) :
    fraction.numerator.natAbs ≤ 2 ^ 50 := by
  have product := within.mul_limit_le
  have positive := within.positive
  have bounded := within.bounded
  exact (Nat.le_mul_of_pos_right _ (show 0 < maxDenominator.toNat by omega)).trans product

private theorem InReach.denominator_lt (within : fraction.InReach maxDenominator) :
    fraction.denominator < 2 ^ 53 := by
  have coprime := within.coprime
  have bounded := within.bounded
  have product := within.mul_limit_le
  rcases Nat.eq_zero_or_pos fraction.numerator.natAbs with zero | some
  · rw [zero, Nat.coprime_zero_left] at coprime
    omega
  · have limit := (Nat.le_mul_of_pos_left maxDenominator.toNat some).trans product
    omega

/-- The binary64 quotient of a fraction in reach by its exact sign and magnitude. -/
theorem InReach.denotes_quotient (within : fraction.InReach maxDenominator) :
    Denotes fraction.quotient (if fraction.numerator < 0 then .negative else .positive)
      (roundMagnitude (fraction.numerator.natAbs / fraction.denominator)) := by
  have positive := within.positive
  have whole := within.numerator_le
  have numerator := denotes_ofNat (show fraction.numerator.natAbs < 2 ^ 53 by omega)
  have divisor := denotes_ofNat within.denominator_lt
  have least : (1 : ℚ) ≤ fraction.denominator := by exact_mod_cast positive
  have some : (fraction.denominator : ℚ) ≠ 0 := by positivity
  have above := (numerator.div divisor some).denotes_of_le numerator
    (div_le_self (Nat.cast_nonneg _) least)
  rw [quotient]
  split
  · rename_i negative
    rw [Int.eq_neg_natAbs_of_nonpos negative.le, ofInt_neg (by omega), neg_div_eq positive numerator divisor,
      Int.natAbs_neg, Int.natAbs_natCast]
    exact above.neg
  · rename_i nonneg
    rw [ofInt_of_nonneg (not_lt.mp nonneg)]
    exact above

/-- The scan of the quotient keeps the terms of the fraction, because the quotient that it keeps is rounded to
the same value. -/
theorem InReach.terms_scan (within : fraction.InReach maxDenominator) {integer : ℕ}
    (numerator : Denotes (scan fraction.quotient.abs maxDenominator.toNat).numerator .positive integer) :
    integer = fraction.numerator.natAbs ∧
      (scan fraction.quotient.abs maxDenominator.toNat).denominator = fraction.denominator := by
  have positive := within.positive
  have bounded := within.bounded
  have whole := within.numerator_le
  have few := within.denominator_lt
  have reach : fraction.denominator ≤ maxDenominator.toNat := by omega
  have denotes := within.denotes_quotient.abs
  have exact := error_over_quotient positive few (by omega) denotes
  have kept := quotient_scan denotes maxDenominator.toNat
  have lower := kept.lower
  have upper := denominator_scan_le denotes maxDenominator.toNat positive exact
  have shorter := lt_of_le_of_lt upper few
  have value := kept.div_eq denotes shorter (error_scan_eq_zero denotes positive reach exact)
  generalize (scan fraction.quotient.abs maxDenominator.toNat).denominator = divisor at *
  have least : (1 : ℚ) ≤ divisor := by exact_mod_cast lower
  have rounded := (numerator.div (denotes_ofNat shorter) (by positivity)).denotes_of_le numerator
    (div_le_self (Nat.cast_nonneg _) least)
  rw [value] at rounded
  have product := (Nat.mul_le_mul_left _ reach).trans within.mul_limit_le
  have cross := mul_eq_of_roundMagnitude_eq lower upper few product (rounded.eq denotes).2
  have divides : fraction.denominator ∣ divisor :=
    within.coprime.symm.dvd_of_dvd_mul_left (Dvd.intro_left integer cross)
  obtain rfl := le_antisymm upper (Nat.le_of_dvd lower divides)
  exact ⟨Nat.eq_of_mul_eq_mul_right positive cross, rfl⟩

private theorem roundMagnitude_div_ne_zero (some : numerator ≠ 0) (positive : 1 ≤ denominator)
    (range : denominator < 2 ^ 53) : roundMagnitude (numerator / denominator) ≠ 0 := by
  have one : (1 : ℚ) ≤ numerator := by exact_mod_cast Nat.pos_of_ne_zero some
  have filled : (0 : ℚ) < denominator := by exact_mod_cast positive
  have bound : (denominator : ℚ) ≤ 2 ^ 53 := by exact_mod_cast range.le
  have least : (2 : ℚ) ^ (-53 : ℤ) ≤ numerator / denominator := by
    rw [le_div_iff₀ filled]
    calc (2 : ℚ) ^ (-53 : ℤ) * denominator ≤ 2 ^ (-53 : ℤ) * 2 ^ 53 := by gcongr
      _ = 1 := by norm_num
      _ ≤ numerator := one
  exact (lt_of_lt_of_le (two_zpow_pos (-53)) (le_roundMagnitude_of_representable
    (lt_of_lt_of_le (two_zpow_pos _) least) (representable_two_zpow (by decide)) least)).ne'

/-- The quotient of a fraction in reach is negative with its numerator. -/
theorem InReach.quotient_lt_zero_iff (within : fraction.InReach maxDenominator) :
    fraction.quotient < 0 ↔ fraction.numerator < 0 := by
  rw [within.denotes_quotient.lt_zero_iff]
  constructor
  · rintro ⟨sign, _⟩
    by_contra nonneg
    rw [if_neg nonneg] at sign
    cases sign
  · intro negative
    rw [if_pos negative]
    exact ⟨rfl, roundMagnitude_div_ne_zero (by omega) within.positive within.denominator_lt⟩

/-- Every fraction in reach is the fraction that is shown for its binary64 quotient. -/
theorem approximate?_quotient (within : fraction.InReach maxDenominator) :
    approximate? fraction.quotient maxDenominator = some fraction := by
  obtain ⟨shown, approximated, kept⟩ := exists_kept within.denotes_quotient.isFinite maxDenominator
  obtain ⟨numerator, denominator⟩ := within.terms_scan kept.numerator
  rw [kept.denominator] at denominator
  have signed := kept.signed
  rw [within.quotient_lt_zero_iff] at signed
  have same : shown.numerator = fraction.numerator := by omega
  rw [approximated, Option.some_inj]
  obtain ⟨first, second⟩ := shown
  obtain rfl : first = fraction.numerator := same
  obtain rfl : second = fraction.denominator := denominator
  rfl

/-- The law at the largest limit, for a fraction that only just is in reach. -/
theorem approximate?_quotient_of_millionths :
    InReach ⟨-1125880000, 999983⟩ 1000000 ∧
      approximate? (quotient ⟨-1125880000, 999983⟩) 1000000 = some ⟨-1125880000, 999983⟩ := by
  have within : InReach ⟨-1125880000, 999983⟩ 1000000 :=
    ⟨by decide, by decide, by decide +kernel, by norm_num⟩
  exact ⟨within, approximate?_quotient within⟩

end LineCalc.Fraction
