import LineCalc.Proofs.Binary64.Closest

/-!
# Rounded magnitudes near an integer

A magnitude is rounded to binary64 before it is rounded to an integer. Below two to the fifty-first the first
rounding passes over no half. From there up to two to the fifty-second only halves are left between integers,
and what is above a quarter and below a half is raised onto the half.
-/

set_option autoImplicit false

namespace LineCalc.Binary64

variable {magnitude : ℚ} {integer : ℕ}

private theorem representable_add_half (small : integer < 2 ^ 52) : Representable (integer + 1 / 2) :=
  ⟨2 * integer + 1, -1, by omega, by decide, by push_cast; norm_num; ring⟩

theorem representable_sub_half (positive : 0 < integer) (small : integer ≤ 2 ^ 52) :
    Representable (integer - 1 / 2) :=
  ⟨2 * integer - 1, -1, by omega, by decide, by
    rw [Nat.cast_sub (by omega)]; push_cast; norm_num; ring⟩

/-! ## Where only halves are left -/

/-- From two to the fifty-first to two to the fifty-second a magnitude is rounded in halves. -/
private theorem roundMagnitude_of_halves (large : 2 ^ 51 ≤ integer) (small : integer < 2 ^ 52)
    (floor : (integer : ℚ) ≤ magnitude) (ceiling : magnitude < integer + 1) :
    roundMagnitude magnitude = nearestEven (2 * magnitude) / 2 := by
  have least : (2 : ℚ) ^ 51 ≤ integer := by exact_mod_cast large
  have most : (integer : ℚ) + 1 ≤ 2 ^ 52 := by exact_mod_cast small
  have place : placeOf magnitude = -1 := by
    apply placeOf_eq (by decide)
    · exact le_trans (le_trans (by norm_num) least) floor
    · exact lt_of_lt_of_le ceiling (le_trans most (by norm_num))
  have halves : magnitude / 2 ^ (-1 : ℤ) = 2 * magnitude := by
    rw [zpow_neg_one, div_inv_eq_mul, mul_comm]
  rw [roundMagnitude, place, halves, zpow_neg_one, ← div_eq_mul_inv]

/-- A quarter is a tie, and the integer below it is even in halves. -/
private theorem roundMagnitude_add_quarter (large : 2 ^ 51 ≤ integer) (small : integer < 2 ^ 52) :
    roundMagnitude (integer + 1 / 4) = integer := by
  have digits : nearestEven (2 * ((integer : ℚ) + 1 / 4)) = 2 * integer := by
    rw [nearestEven_eq_iff (by positivity)]
    refine .inr ⟨?_, by omega⟩
    rw [abs_of_nonpos] <;> push_cast <;> linarith
  rw [roundMagnitude_of_halves large small (by linarith) (by linarith), digits, Nat.cast_mul, Nat.cast_two,
    mul_div_cancel_left₀ _ two_ne_zero]

/-- What is between a quarter and a half is raised onto the half. -/
theorem roundMagnitude_eq_add_half (large : 2 ^ 51 ≤ integer) (small : integer < 2 ^ 52)
    (above : (integer : ℚ) + 1 / 4 < magnitude) (below : magnitude < integer + 1 / 2) :
    roundMagnitude magnitude = integer + 1 / 2 := by
  have nonneg : (0 : ℚ) ≤ integer := Nat.cast_nonneg integer
  have digits : nearestEven (2 * magnitude) = 2 * integer + 1 := by
    rw [nearestEven_eq_iff (by linarith)]
    refine .inl ?_
    push_cast
    rw [abs_lt]
    constructor <;> linarith
  rw [roundMagnitude_of_halves large small (by linarith) (by linarith), digits]
  push_cast
  ring

/-! ## The nearest integer of a rounded magnitude -/

private theorem roundMagnitude_lt_add_half (small : integer < 2 ^ 52) (nonneg : 0 ≤ magnitude)
    (below : magnitude ≤ integer + 1 / 4) : roundMagnitude magnitude < integer + 1 / 2 := by
  rcases lt_or_ge integer (2 ^ 51) with fine | large
  · have quarter : Representable (integer + 1 / 4) :=
      ⟨4 * integer + 1, -2, by omega, by decide, by push_cast; norm_num; ring⟩
    have rounded := roundMagnitude_le_of_representable nonneg quarter below
    linarith
  · have rounded := roundMagnitude_mono nonneg below
    rw [roundMagnitude_add_quarter large small] at rounded
    linarith

/-- From a half below an integer to a quarter above it a magnitude is rounded to the integer. -/
theorem floor_roundMagnitude_add_half (small : integer < 2 ^ 52) (nonneg : 0 ≤ magnitude)
    (lower : (integer : ℚ) - 1 / 2 ≤ magnitude) (upper : magnitude ≤ integer + 1 / 4) :
    ⌊roundMagnitude magnitude + 1 / 2⌋₊ = integer := by
  have rounded := roundMagnitude_nonneg magnitude
  have ceiling := roundMagnitude_lt_add_half small nonneg upper
  rw [Nat.floor_eq_iff (by linarith)]
  rcases Nat.eq_zero_or_pos integer with rfl | positive
  · rw [Nat.cast_zero] at ceiling ⊢
    constructor <;> linarith
  · have one : (1 : ℚ) ≤ integer := by exact_mod_cast positive
    have floor := le_roundMagnitude_of_representable (by linarith)
      (representable_sub_half positive small.le) lower
    constructor <;> linarith

/-- A rounded quotient of a small integer, scaled back, is near the integer. -/
theorem abs_roundMagnitude_div_mul_sub_le_quarter {scale : ℚ} (least : 1 ≤ scale)
    (range : scale ≤ 2 ^ 100) (small : integer < 2 ^ 51) :
    |roundMagnitude (integer / scale) * scale - integer| ≤ 1 / 4 := by
  have digits : (integer : ℚ) ≤ 2 ^ 51 := by exact_mod_cast small.le
  calc _ ≤ (integer : ℚ) / 2 ^ 53 := abs_roundMagnitude_div_mul_sub_le integer least range
    _ ≤ 2 ^ 51 / 2 ^ 53 := by gcongr
    _ = 1 / 4 := by norm_num

theorem floor_lt_of_le_sub_one (nonneg : 0 ≤ magnitude) (small : magnitude ≤ (2 ^ 53 - 1 : ℕ)) :
    ⌊roundMagnitude magnitude + 1 / 2⌋₊ < 2 ^ 53 := by
  have rounded := roundMagnitude_le_of_representable nonneg (representable_natCast (by decide)) small
  have nonnegative := roundMagnitude_nonneg magnitude
  rw [Nat.floor_lt (by linarith)]
  push_cast at rounded ⊢
  linarith

/-- The nearest integer of a rounded magnitude is no more than one above the magnitude. -/
theorem floor_sub_one_le (nonneg : 0 ≤ magnitude)
    (small : ⌊roundMagnitude magnitude + 1 / 2⌋₊ < 2 ^ 53) :
    (⌊roundMagnitude magnitude + 1 / 2⌋₊ : ℚ) - 1 ≤ magnitude := by
  generalize reached : ⌊roundMagnitude magnitude + 1 / 2⌋₊ = integer at small ⊢
  by_contra beyond
  obtain ⟨before, rfl⟩ : ∃ before, integer = before + 1 := by
    apply Nat.exists_eq_succ_of_ne_zero
    rintro rfl
    apply beyond
    rw [Nat.cast_zero]
    linarith
  rw [Nat.cast_add_one, add_sub_cancel_right, not_le] at beyond
  have rounded := roundMagnitude_le_of_representable nonneg (representable_natCast (by omega)) beyond.le
  have nonnegative := roundMagnitude_nonneg magnitude
  have least := Nat.floor_le (show (0 : ℚ) ≤ roundMagnitude magnitude + 1 / 2 by linarith)
  rw [reached, Nat.cast_add_one] at least
  linarith

/-- A magnitude is no more than a half above the nearest integer of its rounding. -/
theorem le_floor_add_half (nonneg : 0 ≤ magnitude) (small : magnitude ≤ (2 ^ 53 - 1 : ℕ)) :
    magnitude ≤ (⌊roundMagnitude magnitude + 1 / 2⌋₊ : ℚ) + 1 / 2 := by
  have ceiling := Nat.lt_floor_add_one (roundMagnitude magnitude + 1 / 2)
  generalize reached : ⌊roundMagnitude magnitude + 1 / 2⌋₊ = integer at ceiling ⊢
  by_contra beyond
  rw [not_le] at beyond
  have positive : 0 < magnitude := lt_of_le_of_lt (by positivity) beyond
  suffices (integer : ℚ) + 1 / 2 ≤ roundMagnitude magnitude by linarith
  rcases le_or_gt ((integer : ℚ) + 1) magnitude with next | within
  · have bound : integer + 1 ≤ 2 ^ 53 - 1 := by exact_mod_cast next.trans small
    have rounded := le_roundMagnitude_of_representable positive
      (representable_natCast (show integer + 1 < 2 ^ 53 by omega)) (by push_cast; exact next)
    push_cast at rounded
    linarith
  · rcases lt_or_ge integer (2 ^ 52) with fine | large
    · exact le_roundMagnitude_of_representable positive (representable_add_half fine) beyond.le
    · have least : (2 : ℚ) ^ 52 ≤ integer := by exact_mod_cast large
      have place : placeOf magnitude = 0 := by
        apply placeOf_eq (by decide)
        · exact le_trans (le_trans (by norm_num) least) (by linarith)
        · push_cast at small
          norm_num at small ⊢
          linarith
      have digits : nearestEven magnitude = integer + 1 := by
        rw [nearestEven_eq_iff nonneg]
        refine .inl ?_
        push_cast
        rw [abs_lt]
        constructor <;> linarith
      rw [roundMagnitude, place, zpow_zero, div_one, mul_one, digits]
      push_cast
      linarith

end LineCalc.Binary64
