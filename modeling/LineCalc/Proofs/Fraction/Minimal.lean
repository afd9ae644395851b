import LineCalc.Proofs.Binary64.Order
import LineCalc.Proofs.Fraction.Reproduction

/-!
# The smallest error with the smallest denominator

No denominator up to the limit has a smaller error than the candidate that the scan keeps, and a smaller
denominator has a larger one. Errors are compared as binary64 values, so an error that is not a number is
below nothing and is never kept.
-/

set_option autoImplicit false

namespace LineCalc.Fraction

open Binary64

variable {value : Float} {magnitude : ℚ} {limit denominator : ℕ}

/-- A candidate with the smallest error of all denominators up to a limit, and with the smallest of the
denominators that have it. -/
structure Candidate.Nearest (value : Float) (limit : Nat) (candidate : Candidate) : Prop where
  minimal : ∀ denominator, 1 ≤ denominator → denominator ≤ limit →
    ¬ (Candidate.over value denominator).error < candidate.error
  first : ∀ denominator, 1 ≤ denominator → denominator < candidate.denominator →
    candidate.error < (Candidate.over value denominator).error ∨
      (Candidate.over value denominator).error.isNaN = true

theorem Candidate.Nearest.improve {best : Candidate} (standing : best.Nearest value limit) :
    (best.improve (.over value (limit + 1))).Nearest value (limit + 1) := by
  rw [Candidate.improve]
  split
  · rename_i nearer
    refine ⟨fun denominator lower upper smaller => ?_, fun denominator lower before => ?_⟩
    · rcases Nat.le_succ_iff.mp upper with earlier | rfl
      · exact standing.minimal denominator lower earlier (lt_of_lt_of_lt smaller nearer)
      · exact not_lt_self _ smaller
    · exact lt_or_isNaN nearer (standing.minimal denominator lower (Nat.le_of_lt_succ before))
  · rename_i farther
    refine ⟨fun denominator lower upper => ?_, standing.first⟩
    rcases Nat.le_succ_iff.mp upper with earlier | rfl
    · exact standing.minimal denominator lower earlier
    · exact farther

theorem nearest_scan (value : Float) (limit : Nat) : (scan value limit).Nearest value limit := by
  induction limit with
  | zero =>
    exact ⟨fun denominator lower none => absurd lower (by omega),
      fun denominator lower before => absurd before (Nat.not_lt.mpr lower)⟩
  | succ limit ih =>
    rw [scan_succ]
    exact ih.improve

private theorem not_isNaN_error_scan (denotes : Denotes value .positive magnitude) (limit : ℕ) :
    ¬ (scan value limit).error.isNaN = true := by
  rcases error_scan_eq_zero_or_pos denotes limit with exact | positive
  · rw [exact]
    decide +kernel
  · exact not_isNaN_of_lt positive

/-- No denominator is kept that comes behind one with the same error. -/
theorem denominator_scan_le_of_error_eq (denotes : Denotes value .positive magnitude)
    (lower : 1 ≤ denominator)
    (same : (Candidate.over value denominator).error = (scan value limit).error) :
    (scan value limit).denominator ≤ denominator := by
  by_contra beyond
  rcases (nearest_scan value limit).first denominator lower (not_le.mp beyond) with less | none
  · rw [same] at less
    exact not_lt_self _ less
  · rw [same] at none
    exact not_isNaN_error_scan denotes limit none

/-- No denominator is kept that is larger than an exact one. -/
theorem denominator_scan_le (denotes : Denotes value .positive magnitude) (limit : ℕ)
    (lower : 1 ≤ denominator) (exact : (Candidate.over value denominator).error = 0) :
    (scan value limit).denominator ≤ denominator := by
  rcases le_or_gt denominator limit with reach | beyond
  · apply denominator_scan_le_of_error_eq denotes lower
    rw [exact, error_scan_eq_zero denotes lower reach exact]
  · have upper := (quotient_scan denotes limit).upper
    omega

/-! ## The fraction that is shown -/

/-- The binary64 distance of a fraction from the absolute value of the value that it is shown for. -/
def error (value : Float) (fraction : Fraction) : Float :=
  (value.abs - Float.ofNat fraction.numerator.natAbs / Float.ofNat fraction.denominator).abs

private theorem Kept.error_eq {maxDenominator : Int} {fraction : Fraction}
    (kept : fraction.Kept maxDenominator value) (denotes : Denotes value.abs .positive magnitude) :
    (scan value.abs maxDenominator.toNat).error = fraction.error value := by
  rw [(quotient_scan denotes maxDenominator.toNat).distance, error, kept.denominator,
    ← (rounded_ofScientific _ false).eq_of_denotes kept.numerator]
  rfl

/-- Every finite value is shown as a fraction with a denominator in reach. A denominator has the numerator
that is nearest to its product with the absolute value. No denominator in reach has a smaller error than the
fraction, and a smaller denominator has a larger error or one that is not a number. The numerator is negative
exactly when the value is and the numerator is not zero. -/
theorem approximate?_minimal (finite : value.isFinite = true) {maxDenominator : Int}
    (least : 1 ≤ maxDenominator) :
    ∃ fraction, approximate? value maxDenominator = some fraction ∧
      1 ≤ fraction.denominator ∧ (fraction.denominator : Int) ≤ maxDenominator ∧
      (∀ denominator : ℕ, 1 ≤ denominator → (denominator : Int) ≤ maxDenominator →
        ¬ (value.abs - nearestInteger (value.abs * Float.ofNat denominator) /
          Float.ofNat denominator).abs < fraction.error value) ∧
      (∀ denominator : ℕ, 1 ≤ denominator → denominator < fraction.denominator →
        fraction.error value < (value.abs - nearestInteger (value.abs * Float.ofNat denominator) /
            Float.ofNat denominator).abs ∨
          (value.abs - nearestInteger (value.abs * Float.ofNat denominator) /
            Float.ofNat denominator).abs.isNaN = true) ∧
      (fraction.numerator < 0 ↔ value < 0 ∧ fraction.numerator ≠ 0) := by
  obtain ⟨sign, magnitude, denotes⟩ := exists_denotes finite
  obtain ⟨fraction, shown, kept⟩ := exists_kept finite maxDenominator
  have bounded := kept.bounded denotes.abs least
  have nearest := nearest_scan value.abs maxDenominator.toNat
  refine ⟨fraction, shown, bounded.lower, bounded.upper, fun denominator lower upper => ?_,
    fun denominator lower before => ?_, kept.signed⟩
  · rw [← kept.error_eq denotes.abs]
    exact nearest.minimal denominator lower (by omega)
  · rw [← kept.error_eq denotes.abs]
    exact nearest.first denominator lower (kept.denominator ▸ before)

/-- The law at a negative value that no denominator in reach gives exactly. -/
theorem approximate?_minimal_of_negative_two_thirds :
    approximate? (-0.66) 10 = some ⟨-2, 3⟩ ∧
      (∀ denominator : ℕ, 1 ≤ denominator → (denominator : Int) ≤ 10 →
        ¬ ((-0.66 : Float).abs - nearestInteger ((-0.66 : Float).abs * Float.ofNat denominator) /
          Float.ofNat denominator).abs < ((-0.66 : Float).abs - Float.ofNat 2 / Float.ofNat 3).abs) ∧
      (∀ denominator : ℕ, 1 ≤ denominator → denominator < 3 →
        ((-0.66 : Float).abs - Float.ofNat 2 / Float.ofNat 3).abs <
            ((-0.66 : Float).abs - nearestInteger ((-0.66 : Float).abs * Float.ofNat denominator) /
              Float.ofNat denominator).abs ∨
          ((-0.66 : Float).abs - nearestInteger ((-0.66 : Float).abs * Float.ofNat denominator) /
            Float.ofNat denominator).abs.isNaN = true) := by
  have shown : approximate? (-0.66) 10 = some ⟨-2, 3⟩ := by decide +kernel
  have finite : (-0.66 : Float).isFinite = true := by decide +kernel
  obtain ⟨fraction, same, _, _, minimal, first, _⟩ :=
    approximate?_minimal finite (show (1 : Int) ≤ 10 by decide)
  obtain rfl := Option.some.inj (shown.symm.trans same)
  exact ⟨shown, minimal, first⟩

end LineCalc.Fraction
