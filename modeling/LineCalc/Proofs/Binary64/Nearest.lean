import Mathlib

/-!
# The nearest integer by two bits

Binary64 arithmetic rounds an exact result by its integral part and two bits: the round bit says whether
at least a half is missing, the sticky bit whether anything else is. What these three say of a rational
survives halving, and it determines the nearest integer, where of two nearest ones the even one counts.
-/

set_option autoImplicit false

namespace LineCalc.Binary64

open Float.Model.UnpackedFloat

/-- The integer nearest to a rational that is not negative, and the even one of two nearest. -/
def nearestEven (value : ℚ) : ℕ :=
  let floor := ⌊value⌋₊
  if value < floor + 1 / 2 then floor
  else if value = floor + 1 / 2 then floor + floor % 2
  else floor + 1

theorem nearestEven_le {value : ℚ} {bound : ℕ} (below : value ≤ bound) : nearestEven value ≤ bound := by
  have floor : ⌊value⌋₊ ≤ bound := Nat.floor_le_of_le below
  rcases Nat.lt_or_eq_of_le floor with less | same
  · simp only [nearestEven]
    split
    · exact floor
    · split
      · omega
      · omega
  · have first : value < (⌊value⌋₊ : ℚ) + 1 / 2 := by
      rw [same]
      linarith
    simp only [nearestEven]
    rw [if_pos first]
    exact floor

theorem le_nearestEven {value : ℚ} {bound : ℕ} (above : (bound : ℚ) ≤ value) :
    bound ≤ nearestEven value := by
  have floor : bound ≤ ⌊value⌋₊ := Nat.le_floor above
  simp only [nearestEven]
  split
  · exact floor
  · split
    · omega
    · omega

private theorem floor_le_nearestEven (value : ℚ) : ⌊value⌋₊ ≤ nearestEven value := by
  simp only [nearestEven]
  split_ifs <;> omega

private theorem nearestEven_le_floor_add_one (value : ℚ) : nearestEven value ≤ ⌊value⌋₊ + 1 := by
  simp only [nearestEven]
  split_ifs <;> omega

theorem nearestEven_mono {left right : ℚ} (below : left ≤ right) :
    nearestEven left ≤ nearestEven right := by
  rcases (Nat.floor_mono below).lt_or_eq with less | same
  · exact le_trans (nearestEven_le_floor_add_one left) (le_trans less (floor_le_nearestEven right))
  · have next := nearestEven_le_floor_add_one left
    simp only [nearestEven, same] at next ⊢
    rcases lt_trichotomy right (⌊right⌋₊ + 1 / 2) with less | middle | more
    · rw [if_pos less, if_pos (lt_of_le_of_lt below less)]
    · rw [if_neg middle.not_lt, if_pos middle]
      rw [middle] at below
      rcases below.lt_or_eq with less | equal
      · rw [if_pos less]
        omega
      · rw [if_neg equal.not_lt, if_pos equal]
    · rw [if_neg more.not_gt, if_neg more.ne']
      exact next

/-- The integral part and the two bits of a rational. -/
structure Marks (bits : ExtendedMantissa) (value : ℚ) : Prop where
  floor : (bits.mantissa : ℚ) ≤ value
  ceiling : value < bits.mantissa + 1
  half : bits.roundBit = true ↔ (bits.mantissa : ℚ) + 1 / 2 ≤ value
  between : bits.stickyBit = true ↔ value ≠ bits.mantissa ∧ value ≠ bits.mantissa + 1 / 2

private theorem Marks.nonneg {bits : ExtendedMantissa} {value : ℚ} (marks : Marks bits value) : 0 ≤ value :=
  le_trans (Nat.cast_nonneg _) marks.floor

private theorem Marks.floor_eq {bits : ExtendedMantissa} {value : ℚ} (marks : Marks bits value) :
    ⌊value⌋₊ = bits.mantissa :=
  (Nat.floor_eq_iff marks.nonneg).mpr ⟨marks.floor, marks.ceiling⟩

@[simp] theorem mantissa_ofMantissaAndAccuracy (mantissa : ℕ) (accuracy : Accuracy) :
    (ExtendedMantissa.ofMantissaAndAccuracy mantissa accuracy).mantissa = mantissa := by
  rcases accuracy with _ | order
  · rfl
  · cases order <;> rfl

theorem marks_natCast (mantissa : ℕ) :
    Marks (ExtendedMantissa.ofMantissaAndAccuracy mantissa .exact) mantissa where
  floor := le_refl _
  ceiling := lt_add_one _
  half := by
    simp only [ExtendedMantissa.ofMantissaAndAccuracy, Bool.false_eq_true, false_iff]
    norm_num
  between := by simp [ExtendedMantissa.ofMantissaAndAccuracy]

/-- How a part of one compares with a half settles both bits. -/
theorem marks_inexact (mantissa : ℕ) {part : ℚ} {order : Ordering} (positive : 0 < part)
    (less : part < 1) (below : order = .lt ↔ part < 1 / 2) (above : order = .gt ↔ 1 / 2 < part) :
    Marks (ExtendedMantissa.ofMantissaAndAccuracy mantissa (.inexact order)) (mantissa + part) := by
  have floor : (mantissa : ℚ) ≤ mantissa + part := by linarith
  have ceiling : (mantissa : ℚ) + part < mantissa + 1 := by linarith
  cases order with
  | lt =>
    have first : part < 1 / 2 := below.mp rfl
    refine ⟨floor, ceiling, ?_, ?_⟩
    · simp only [ExtendedMantissa.ofMantissaAndAccuracy, Bool.false_eq_true, false_iff, not_le]
      linarith
    · simp only [ExtendedMantissa.ofMantissaAndAccuracy, true_iff]
      exact ⟨by linarith, by linarith⟩
  | eq =>
    have middle : part = 1 / 2 :=
      le_antisymm (not_lt.mp fun last => nomatch above.mpr last)
        (not_lt.mp fun first => nomatch below.mpr first)
    refine ⟨floor, ceiling, ?_, ?_⟩
    · simp only [ExtendedMantissa.ofMantissaAndAccuracy, true_iff]
      linarith
    · simp only [ExtendedMantissa.ofMantissaAndAccuracy, Bool.false_eq_true, false_iff]
      intro apart
      exact apart.2 (by rw [middle])
  | gt =>
    have last : 1 / 2 < part := above.mp rfl
    refine ⟨floor, ceiling, ?_, ?_⟩
    · simp only [ExtendedMantissa.ofMantissaAndAccuracy, true_iff]
      linarith
    · simp only [ExtendedMantissa.ofMantissaAndAccuracy, true_iff]
      exact ⟨by linarith, by linarith⟩

theorem Marks.roundedMantissa_eq {bits : ExtendedMantissa} {value : ℚ} (marks : Marks bits value) :
    bits.roundedMantissa = nearestEven value := by
  obtain ⟨mantissa, round, sticky⟩ := bits
  have floor := marks.floor_eq
  obtain ⟨lower, upper, half, between⟩ := marks
  simp only at floor lower upper half between
  simp only [nearestEven, floor]
  cases round with
  | false =>
    have below : value < mantissa + 1 / 2 := by simpa using half
    rw [if_pos below]
    cases sticky <;> rfl
  | true =>
    have above : (mantissa : ℚ) + 1 / 2 ≤ value := half.mp rfl
    rw [if_neg (not_lt.mpr above)]
    cases sticky with
    | false =>
      have middle : value = mantissa + 1 / 2 := by
        by_contra other
        have apart : value ≠ mantissa := by
          intro same
          linarith
        exact absurd (between.mpr ⟨apart, other⟩) (by decide)
      rw [if_pos middle]
      rfl
    | true =>
      rw [if_neg (between.mp rfl).2]
      rfl

/-! ## Halving -/

theorem Marks.inexact_iff {bits : ExtendedMantissa} {value : ℚ} (marks : Marks bits value) :
    (bits.roundBit || bits.stickyBit) = true ↔ value ≠ bits.mantissa := by
  rw [Bool.or_eq_true, marks.half, marks.between]
  constructor
  · intro either same
    rcases either with above | apart
    · linarith
    · exact apart.1 same
  · intro apart
    by_cases above : (bits.mantissa : ℚ) + 1 / 2 ≤ value
    · exact .inl above
    · exact .inr ⟨apart, fun same => above (le_of_eq same.symm)⟩

private theorem Marks.shiftRightOne {bits : ExtendedMantissa} {value : ℚ} (marks : Marks bits value) :
    Marks bits.shiftRightOne (value / 2) := by
  have lost := marks.inexact_iff
  obtain ⟨mantissa, round, sticky⟩ := bits
  obtain ⟨lower, upper, _, _⟩ := marks
  simp only at lost lower upper
  have halves : (mantissa : ℚ) = 2 * (mantissa / 2 : ℕ) + (mantissa % 2 : ℕ) := by
    exact_mod_cast (Nat.div_add_mod mantissa 2).symm
  rcases Nat.mod_two_eq_zero_or_one mantissa with even | odd
  · rw [even, Nat.cast_zero, add_zero] at halves
    refine ⟨?_, ?_, ?_, ?_⟩
    · simp only [ExtendedMantissa.shiftRightOne]
      linarith
    · simp only [ExtendedMantissa.shiftRightOne]
      linarith
    · simp only [ExtendedMantissa.shiftRightOne, even, bne_self_eq_false, Bool.false_eq_true,
        false_iff, not_le]
      linarith
    · simp only [ExtendedMantissa.shiftRightOne, lost]
      constructor
      · intro apart
        refine ⟨fun same => apart (by linarith), fun same => ?_⟩
        linarith
      · intro apart same
        exact apart.1 (by linarith)
  · rw [odd, Nat.cast_one] at halves
    refine ⟨?_, ?_, ?_, ?_⟩
    · simp only [ExtendedMantissa.shiftRightOne]
      linarith
    · simp only [ExtendedMantissa.shiftRightOne]
      linarith
    · have bit : (mantissa % 2 != 0) = true := by simp [odd]
      simp only [ExtendedMantissa.shiftRightOne, bit, true_iff]
      linarith
    · simp only [ExtendedMantissa.shiftRightOne, lost]
      constructor
      · intro apart
        refine ⟨fun same => ?_, fun same => apart (by linarith)⟩
        linarith
      · intro apart same
        exact apart.2 (by linarith)

theorem Marks.shiftRight {bits : ExtendedMantissa} {value : ℚ} (marks : Marks bits value)
    (amount : ℕ) : Marks (bits >>> amount) (value / 2 ^ amount) := by
  change Marks (amount.repeat ExtendedMantissa.shiftRightOne bits) (value / 2 ^ amount)
  induction amount with
  | zero => simpa [Nat.repeat] using marks
  | succ amount ih =>
    have halved := ih.shiftRightOne
    rw [div_div, ← pow_succ] at halved
    exact halved

end LineCalc.Binary64
