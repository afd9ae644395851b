import LineCalc.Proofs.Rounding.Halves
import LineCalc.Proofs.Rounding.Nearest

/-!
# Rounding twice

What rounding to decimal places leaves is rounded to itself, with one exception: where binary64 has only
halves between integers, a product with the scale can be raised onto a half, and the second rounding goes on
to the next point of the grid.
-/

set_option autoImplicit false

namespace LineCalc

open Binary64
open Float.Model.UnpackedFloat (Sign)

variable {places integer : ℕ} {magnitude : ℚ} {value : Float} {sign : Sign}

/-- The number that a binary fraction is. -/
def BinaryFraction.number (value : BinaryFraction) : ℚ :=
  value.mantissa / 2 ^ value.places

/-- The product of a magnitude with the scale is more than a quarter and less than a half above an integer, and
of a size where binary64 has only halves: it is rounded up to the half. -/
def RaisedToHalf (places : ℕ) (magnitude : ℚ) : Prop :=
  ∃ integer : ℕ, 2 ^ 51 ≤ integer ∧ integer < 2 ^ 52 ∧
    integer + 1 / 4 < magnitude * 10 ^ places ∧ magnitude * 10 ^ places < integer + 1 / 2

private theorem RaisedToHalf.lt (raised : RaisedToHalf places magnitude) :
    magnitude * 10 ^ places < 2 ^ 52 - 1 / 2 := by
  obtain ⟨integer, _, small, _, below⟩ := raised
  have next : (integer : ℚ) + 1 ≤ 2 ^ 52 := by exact_mod_cast small
  linarith

private theorem not_raisedToHalf_zero : ¬ RaisedToHalf places 0 := by
  rintro ⟨integer, _, _, above, _⟩
  have nonneg : (0 : ℚ) ≤ integer := Nat.cast_nonneg integer
  rw [zero_mul] at above
  linarith

private theorem not_raisedToHalf_of_two_pow_le (large : 2 ^ 52 ≤ magnitude) :
    ¬ RaisedToHalf places magnitude := by
  intro raised
  have scaled : magnitude ≤ magnitude * 10 ^ places :=
    le_mul_of_one_le_right (le_trans (by norm_num) large) (one_le_pow₀ (by norm_num))
  linarith [raised.lt]

/-! ## The grid -/

private theorem gridPoint_mul_nonneg : 0 ≤ gridPoint places integer * 10 ^ places :=
  mul_nonneg (roundMagnitude_nonneg _) (by positivity)

private theorem abs_gridPoint_mul_sub_le (few : places ≤ 22) (integer : ℕ) :
    |gridPoint places integer * 10 ^ places - integer| ≤ integer / 2 ^ 53 :=
  abs_roundMagnitude_div_mul_sub_le integer (one_le_pow₀ (by norm_num)) ((ten_pow_le few).trans (by norm_num))

private theorem gridPoint_mul_lt_add_half (few : places ≤ 22) (small : integer < 2 ^ 52) :
    gridPoint places integer * 10 ^ places < integer + 1 / 2 := by
  have most : (integer : ℚ) < 2 ^ 52 := by exact_mod_cast small
  have near := (abs_le.mp (abs_gridPoint_mul_sub_le few integer)).2
  linarith

private theorem sub_half_le_gridPoint_mul (few : places ≤ 22) (small : integer ≤ 2 ^ 52) :
    (integer : ℚ) - 1 / 2 ≤ gridPoint places integer * 10 ^ places := by
  have most : (integer : ℚ) ≤ 2 ^ 52 := by exact_mod_cast small
  have near := (abs_le.mp (abs_gridPoint_mul_sub_le few integer)).1
  linarith

private theorem sub_half_le_gridPoint_mul_of_le (few : places ≤ 22) (large : 2 ^ 52 ≤ integer) :
    (2 : ℚ) ^ 52 - 1 / 2 ≤ gridPoint places integer * 10 ^ places := by
  calc (2 : ℚ) ^ 52 - 1 / 2 = (2 ^ 52 : ℕ) - 1 / 2 := by norm_num
    _ ≤ gridPoint places (2 ^ 52) * 10 ^ places := sub_half_le_gridPoint_mul few (le_refl _)
    _ ≤ gridPoint places integer * 10 ^ places := by
      gcongr
      exact gridPoint_mono large

/-! ## Small points -/

/-- Below two to the fifty-first no product is more than a quarter above its integer. -/
private theorem two_pow_le_of_add_quarter_lt (few : places ≤ 22)
    (above : integer + 1 / 4 < gridPoint places integer * 10 ^ places) : 2 ^ 51 ≤ integer := by
  by_contra fine
  have most : (integer : ℚ) ≤ 2 ^ 51 := by exact_mod_cast (not_le.mp fine).le
  have near := (abs_le.mp (abs_gridPoint_mul_sub_le few integer)).2
  linarith

/-- The product is raised when it is more than a quarter above the integer, and only then. -/
theorem raisedToHalf_gridPoint_iff (few : places ≤ 22) (small : integer < 2 ^ 52) :
    RaisedToHalf places (gridPoint places integer) ↔
      integer + 1 / 4 < gridPoint places integer * 10 ^ places := by
  constructor
  · rintro ⟨reached, _, _, above, within⟩
    have floor := sub_half_le_gridPoint_mul few small.le
    have less : (integer : ℚ) < reached + 1 := by linarith
    have least : (integer : ℚ) ≤ reached := by
      exact_mod_cast Nat.lt_add_one_iff.mp (by exact_mod_cast less)
    linarith
  · intro above
    exact ⟨integer, two_pow_le_of_add_quarter_lt few above, small, above,
      gridPoint_mul_lt_add_half few small⟩

private theorem roundMagnitudeTo_gridPoint_of_le (few : places ≤ 22) (small : integer < 2 ^ 52)
    (upper : gridPoint places integer * 10 ^ places ≤ integer + 1 / 4) :
    roundMagnitudeTo places (gridPoint places integer) = gridPoint places integer := by
  have lower := sub_half_le_gridPoint_mul few small.le
  rw [roundMagnitudeTo, floor_roundMagnitude_add_half small gridPoint_mul_nonneg lower upper, gridPoint]

/-- A raised product is rounded to the next integer. -/
theorem roundMagnitudeTo_gridPoint_of_lt (few : places ≤ 22) (small : integer < 2 ^ 52)
    (above : integer + 1 / 4 < gridPoint places integer * 10 ^ places) :
    roundMagnitudeTo places (gridPoint places integer) = gridPoint places (integer + 1) := by
  have half := roundMagnitude_eq_add_half (two_pow_le_of_add_quarter_lt few above) small above
    (gridPoint_mul_lt_add_half few small)
  have next : ⌊(integer : ℚ) + 1 / 2 + 1 / 2⌋₊ = integer + 1 := by
    rw [add_assoc, add_halves]
    exact_mod_cast Nat.floor_natCast (integer + 1)
  rw [roundMagnitudeTo, half, next, gridPoint]

private theorem gridPoint_succ_ne (few : places ≤ 22) (small : integer < 2 ^ 52) :
    gridPoint places (integer + 1) ≠ gridPoint places integer := by
  intro same
  have below := gridPoint_mul_lt_add_half few small
  have floor : ((integer + 1 : ℕ) : ℚ) - 1 / 2 ≤ gridPoint places (integer + 1) * 10 ^ places :=
    sub_half_le_gridPoint_mul few small
  rw [same, Nat.cast_add_one] at floor
  linarith

/-! ## Large points -/

/-- Above two to the fifty-second only integers are left. -/
private theorem exists_natCast_eq_roundMagnitude (large : 2 ^ 52 ≤ magnitude) :
    ∃ integer : ℕ, roundMagnitude magnitude = integer := by
  have positive : 0 < magnitude := lt_of_lt_of_le (by norm_num) large
  have log : 52 ≤ Int.log 2 magnitude := (two_zpow_le_iff positive).mp (by exact_mod_cast large)
  obtain ⟨amount, same⟩ := Int.eq_ofNat_of_zero_le (show 0 ≤ placeOf magnitude by
    unfold placeOf
    omega)
  refine ⟨nearestEven (magnitude / 2 ^ placeOf magnitude) * 2 ^ amount, ?_⟩
  rw [roundMagnitude, same]
  push_cast
  rw [zpow_natCast]

/-- The rounded product is no further from the exact one than the integer of the point is, so its quotient is
rounded to the same point. -/
private theorem roundMagnitude_product_div (few : places ≤ 22) (representable : Representable integer)
    (large : 2 ^ 52 ≤ integer) :
    roundMagnitude (roundMagnitude (gridPoint places integer * 10 ^ places) / 10 ^ places) =
      gridPoint places integer := by
  have least : (2 : ℚ) ^ 52 ≤ integer := by exact_mod_cast large
  have scale : (0 : ℚ) < 10 ^ places := by positivity
  have product : 0 < gridPoint places integer * 10 ^ places :=
    lt_of_lt_of_le (by norm_num) (sub_half_le_gridPoint_mul_of_le few large)
  by_cases power : ∃ exponent : ℤ, -1074 ≤ exponent ∧ gridPoint places integer = 2 ^ exponent
  · obtain ⟨exponent, fine, same⟩ := power
    rw [same, (representable_two_zpow_mul_ten_pow few fine).roundMagnitude_eq (by positivity),
      mul_div_cancel_right₀ _ scale.ne', (representable_two_zpow fine).roundMagnitude_eq (by positivity)]
  · apply roundMagnitude_eq_of_abs_sub_le
    · rw [le_div_iff₀ scale]
      calc (2 : ℚ) ^ (-1022 : ℤ) * 10 ^ places ≤ 2 ^ (-74 : ℤ) * 2 ^ 74 :=
            mul_le_mul (zpow_le_zpow_right₀ one_le_two (by decide)) (ten_pow_le few) scale.le
              (two_zpow_pos _).le
        _ ≤ 2 ^ 52 := by norm_num
        _ ≤ integer := least
    · intro exponent fine same
      exact power ⟨exponent, fine, same⟩
    · have closest := div_le_div_of_nonneg_right
        (abs_roundMagnitude_sub_le_abs_sub product representable) scale.le
      rwa [abs_sub_comm, abs_sub_comm (integer : ℚ), ← abs_of_pos scale, ← abs_div, ← abs_div, sub_div,
        sub_div, abs_of_pos scale, mul_div_cancel_right₀ _ scale.ne'] at closest

private theorem roundMagnitudeTo_gridPoint_of_large (few : places ≤ 22)
    (representable : Representable integer)
    (large : 2 ^ 52 ≤ integer) :
    roundMagnitudeTo places (gridPoint places integer) = gridPoint places integer := by
  have floor := sub_half_le_gridPoint_mul_of_le few large
  rcases le_or_gt (2 ^ 52) (gridPoint places integer * 10 ^ places) with beyond | within
  · obtain ⟨reached, whole⟩ := exists_natCast_eq_roundMagnitude beyond
    rw [roundMagnitudeTo, whole, floor_natCast_add_half, ← whole,
      roundMagnitude_product_div few representable large]
  · have near := (abs_le.mp (abs_gridPoint_mul_sub_le few integer)).1
    have less : (integer : ℚ) < 2 ^ 52 + 1 := by linarith
    have least : integer = 2 ^ 52 :=
      le_antisymm (Nat.lt_add_one_iff.mp (by exact_mod_cast less)) large
    have exact : (integer : ℚ) = 2 ^ 52 := by exact_mod_cast least
    have lower := le_roundMagnitude_of_representable (lt_of_lt_of_le (by norm_num) floor)
      (representable_sub_half (by omega) least.le) (by rw [exact]; exact floor)
    have upper := roundMagnitude_le_of_representable gridPoint_mul_nonneg representable
      (by rw [exact]; exact within.le)
    have nearest : ⌊roundMagnitude (gridPoint places integer * 10 ^ places) + 1 / 2⌋₊ = integer := by
      rw [Nat.floor_eq_iff (add_nonneg (roundMagnitude_nonneg _) one_half_pos.le)]
      constructor <;> linarith
    rw [roundMagnitudeTo, nearest, gridPoint]

/-- A point of the grid is rounded to itself unless its product with the scale is raised onto a half. -/
theorem roundMagnitudeTo_gridPoint_eq_iff (few : places ≤ 22) (representable : Representable integer) :
    roundMagnitudeTo places (gridPoint places integer) = gridPoint places integer ↔
      ¬ RaisedToHalf places (gridPoint places integer) := by
  rcases lt_or_ge integer (2 ^ 52) with small | large
  · rw [raisedToHalf_gridPoint_iff few small, not_lt]
    refine ⟨fun same => ?_, roundMagnitudeTo_gridPoint_of_le few small⟩
    by_contra above
    rw [roundMagnitudeTo_gridPoint_of_lt few small (not_le.mp above)] at same
    exact gridPoint_succ_ne few small same
  · refine iff_of_true (roundMagnitudeTo_gridPoint_of_large few representable large) fun raised => ?_
    exact absurd raised.lt (not_lt.mpr (sub_half_le_gridPoint_mul_of_le few large))

/-! ## Values -/

private theorem roundTo_zero (few : places ≤ 22) : roundTo places 0 = 0 := by
  by_cases scaled : (0 * decimalScale places).isFinite = true
  · rcases denotes_roundTo few denotes_zero scaled with ⟨_, vanishes⟩ | ⟨some, _⟩
    · exact vanishes
    · exact absurd (roundMagnitudeTo_zero places) some
  · exact roundTo_of_not_isFinite scaled

theorem roundTo_eq_self_iff (few : places ≤ 22) (denotes : Denotes value sign magnitude)
    (some : magnitude ≠ 0) (scaled : (value * decimalScale places).isFinite = true) :
    roundTo places value = value ↔ roundMagnitudeTo places magnitude = magnitude := by
  rcases denotes_roundTo few denotes scaled with ⟨none, vanishes⟩ | ⟨_, rounded⟩
  · rw [none, vanishes]
    refine iff_of_false ?_ some.symm
    rintro rfl
    exact some (denotes.eq denotes_zero).2
  · constructor
    · intro same
      rw [same] at rounded
      exact (rounded.eq denotes).2
    · intro same
      rw [same] at rounded
      exact rounded.unique denotes

/-- The integer that a product is rounded to needs no rounding itself. -/
private theorem representable_floor (few : places ≤ 22) (denotes : Denotes value sign magnitude)
    (scaled : (value * decimalScale places).isFinite = true) :
    Representable (⌊roundMagnitude (magnitude * 10 ^ places) + 1 / 2⌋₊ : ℕ) := by
  have product := (denotes.mul (denotes_decimalScale few)).denotes scaled
  obtain ⟨_, nearest, _⟩ := denotes_nearestInteger product
  exact nearest.representable

/-- A value that overflows the scale is its own rounding. -/
theorem roundTo_eq_self_iff_of_not_isFinite (few : places ≤ 22) (denotes : Denotes value sign magnitude)
    (overflows : ¬ (value * decimalScale places).isFinite = true) :
    roundTo places value = value ↔ ¬ RaisedToHalf places magnitude :=
  iff_of_true (roundTo_of_not_isFinite overflows)
    (not_raisedToHalf_of_two_pow_le (two_pow_le_of_not_isFinite few denotes overflows))

/-- Rounding a value to decimal places a second time leaves it as it is exactly when the product of the rounded
value with the scale is not raised onto a half. -/
theorem roundTo_roundTo_eq_iff (few : places ≤ 22) (finite : value.isFinite = true) :
    roundTo places (roundTo places value) = roundTo places value ↔
      ¬ RaisedToHalf places (BinaryFraction.ofFloat (roundTo places value)).number := by
  obtain ⟨sign, magnitude, denotes⟩ := exists_denotes finite
  by_cases scaled : (value * decimalScale places).isFinite = true
  · rcases denotes_roundTo few denotes scaled with ⟨_, vanishes⟩ | ⟨some, rounded⟩
    · rw [vanishes, BinaryFraction.number, BinaryFraction.ofFloat_eq denotes_zero]
      exact iff_of_true (roundTo_zero few) not_raisedToHalf_zero
    · rw [BinaryFraction.number, BinaryFraction.ofFloat_eq rounded]
      by_cases again : (roundTo places value * decimalScale places).isFinite = true
      · rw [roundTo_eq_self_iff few rounded some again]
        exact roundMagnitudeTo_gridPoint_eq_iff few (representable_floor few denotes scaled)
      · exact roundTo_eq_self_iff_of_not_isFinite few rounded again
  · rw [roundTo_of_not_isFinite scaled, BinaryFraction.number, BinaryFraction.ofFloat_eq denotes]
    exact roundTo_eq_self_iff_of_not_isFinite few denotes scaled

/-- Also where only halves are left, a value whose product is just below an integer is rounded to itself. -/
theorem roundTo_roundTo_eq_below_integer :
    (36407473733029.18 : Float).isFinite = true ∧
      roundTo 2 (roundTo 2 36407473733029.18) = roundTo 2 36407473733029.18 := by
  have finite : (36407473733029.18 : Float).isFinite = true := by decide +kernel
  have binary : BinaryFraction.ofFloat (roundTo 2 36407473733029.18) = ⟨4660156637827735, 7⟩ := by
    decide +kernel
  refine ⟨finite, (roundTo_roundTo_eq_iff (by decide) finite).mpr ?_⟩
  rw [binary, BinaryFraction.number]
  rintro ⟨integer, _, _, above, below⟩
  have less : (integer : ℚ) < 3640747373302918 := by linarith
  have more : (3640747373302917 : ℚ) < integer := by linarith
  norm_cast at less more
  omega

/-- A hundredth further the rounded value has a product that is raised onto a half, and the second rounding moves
it. -/
theorem roundTo_roundTo_ne :
    roundTo 2 36407473733029.195 = 36407473733029.2 ∧ roundTo 2 36407473733029.2 = 36407473733029.21 ∧
      ¬ ∀ places ≤ 10, ∀ value : Float, value.isFinite = true →
        roundTo places (roundTo places value) = roundTo places value := by
  have first : roundTo 2 36407473733029.195 = 36407473733029.2 := by decide +kernel
  have second : roundTo 2 36407473733029.2 = 36407473733029.21 := by decide +kernel
  refine ⟨first, second, fun idempotent => ?_⟩
  have same := idempotent 2 (by decide) 36407473733029.195 (by decide +kernel)
  rw [first, second] at same
  exact absurd same (by decide +kernel)

end LineCalc
