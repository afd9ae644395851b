import LineCalc.Fraction
import LineCalc.Proofs.Binary64.Difference

/-!
# The scan of the denominators

Each denominator either replaces the candidate that stands or leaves it. What replaces it has an error
below another one, so its numerator is finite: the product that overflows is never kept, and every finite
value is shown as a fraction.
-/

set_option autoImplicit false

namespace LineCalc.Fraction

open Binary64

variable {value : Float}

theorem scan_succ (value : Float) (limit : Nat) :
    scan value (limit + 1) = (scan value limit).improve (.over value (limit + 1)) :=
  Nat.fold_succ ..

/-- What holds of the first candidate and of each one that replaces another holds of the last. -/
theorem scan_induction (Holds : Candidate → Prop) (limit : Nat) (first : Holds (.one value))
    (replaced : ∀ (best : Candidate) (denominator : Nat), 1 ≤ denominator → denominator ≤ limit →
      (Candidate.over value denominator).error < best.error → Holds (.over value denominator)) :
    Holds (scan value limit) := by
  induction limit with
  | zero => exact first
  | succ limit ih =>
    have standing := ih fun best denominator lower upper =>
      replaced best denominator lower (Nat.le_succ_of_le upper)
    rw [scan_succ, Candidate.improve]
    split
    · rename_i nearer
      exact replaced _ _ (Nat.succ_pos limit) (le_refl _) nearer
    · exact standing

theorem isFinite_numerator_of_error_lt {denominator : Nat} {bound : Float}
    (nearer : (Candidate.over value denominator).error < bound) :
    (Candidate.over value denominator).numerator.isFinite = true :=
  isFinite_of_div (isFinite_of_sub (isFinite_of_abs_lt nearer)).2

private theorem isFinite_numerator_scan (value : Float) (limit : Nat) :
    (scan value limit).numerator.isFinite = true := by
  apply scan_induction (fun best => best.numerator.isFinite = true) limit denotes_one.isFinite
  intro best denominator _ _ nearer
  exact isFinite_numerator_of_error_lt nearer

/-- Every finite value has a fraction, whatever the limit. -/
theorem exists_approximate? (finite : value.isFinite = true) (maxDenominator : Int) :
    ∃ fraction, approximate? value maxDenominator = some fraction := by
  have kept := isFinite_numerator_scan value.abs maxDenominator.toNat
  rw [approximate?, if_pos finite]
  simp only [wholeMagnitude?, if_pos kept]
  exact ⟨_, rfl⟩

end LineCalc.Fraction
