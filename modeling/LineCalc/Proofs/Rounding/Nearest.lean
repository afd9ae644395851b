import LineCalc.Proofs.Binary64.Difference
import LineCalc.Rounding

/-!
# Rounding to the nearest integer and to decimal places

The binary fraction of a value is its exact magnitude, so the nearest integer is found exactly. What is
rounded to decimal places is the quotient of an integer by the scale, or so large that it is an integer.
-/

set_option autoImplicit false

namespace LineCalc

open Binary64
open Float.Model.UnpackedFloat (Sign)

variable {value : Float} {sign : Sign} {magnitude : ℚ}

namespace BinaryFraction

private theorem ofFloat_of_field_eq_zero (field : value.toBits.toNat / 2 ^ 52 % 2 ^ 11 = 0) :
    ofFloat value = ⟨value.toBits.toNat % 2 ^ 52, 1074⟩ := by
  have shift : max 0 1 - 1075 = 0 := by decide
  simp only [ofFloat, Nat.pow_eq, field, if_true, shift, pow_zero, mul_one]
  rfl

private theorem ofFloat_of_field_eq {exponent : ℤ} (lower : -1074 ≤ exponent)
    (field : (value.toBits.toNat / 2 ^ 52 % 2 ^ 11 : ℕ) = exponent + 1075) :
    ofFloat value =
      ⟨(2 ^ 52 + value.toBits.toNat % 2 ^ 52) * 2 ^ exponent.toNat, (-exponent).toNat⟩ := by
  simp only [ofFloat, Nat.pow_eq]
  generalize value.toBits.toNat / 2 ^ 52 % 2 ^ 11 = stored at field
  have filled : stored ≠ 0 := by omega
  have shift : max stored 1 - 1075 = exponent.toNat := by omega
  have places : 1075 - max stored 1 = (-exponent).toNat := by omega
  rw [if_neg filled, shift, places, Nat.add_comm]

private theorem ofFloat_of_unpack_zero (read : value.toModel.unpack = .zero sign) :
    ofFloat value = ⟨0, 1074⟩ := by
  have known := fields value
  rw [read] at known
  cases known with
  | zero field fraction => rw [ofFloat_of_field_eq_zero field, fraction]

/-- The binary fraction of a finite value by what is read. -/
theorem ofFloat_of_unpack_finite {mantissa : ℕ} {exponent : ℤ} {positive : 0 < mantissa}
    (read : value.toModel.unpack = .finite sign mantissa exponent positive) :
    ofFloat value = ⟨mantissa * 2 ^ exponent.toNat, (-exponent).toNat⟩ := by
  have known := fields value
  rw [read] at known
  cases known with
  | subnormal field fraction =>
    rw [ofFloat_of_field_eq_zero field, fraction]
    exact congrArg (BinaryFraction.mk · 1074) (Nat.mul_one mantissa).symm
  | normal lower upper field fraction => rw [ofFloat_of_field_eq lower field, fraction]

theorem ofFloat_neg (denotes : Denotes value sign magnitude) :
    ofFloat (-value) = ofFloat value := by
  cases denotes with
  | zero read =>
    have negated : (-value).toModel.unpack = .zero (-sign) := by
      rw [unpack_neg, read]
      rfl
    rw [ofFloat_of_unpack_zero read, ofFloat_of_unpack_zero negated]
  | @finite mantissa exponent positive read =>
    have negated : (-value).toModel.unpack = .finite (-sign) mantissa exponent positive := by
      rw [unpack_neg, read]
      rfl
    rw [ofFloat_of_unpack_finite read, ofFloat_of_unpack_finite negated]

/-- The binary fraction of a value is its magnitude. -/
theorem ofFloat_eq (denotes : Denotes value sign magnitude) :
    ((ofFloat value).mantissa : ℚ) / 2 ^ (ofFloat value).places = magnitude := by
  cases denotes with
  | zero read => rw [ofFloat_of_unpack_zero read, Nat.cast_zero, zero_div]
  | @finite mantissa exponent positive read =>
    rw [ofFloat_of_unpack_finite read]
    rcases le_or_gt 0 exponent with whole | part
    · obtain ⟨digits, rfl⟩ := Int.eq_ofNat_of_zero_le whole
      simp
    · obtain ⟨digits, same⟩ := Int.eq_ofNat_of_zero_le (show 0 ≤ -exponent by omega)
      obtain rfl : exponent = -digits := by omega
      simp [div_eq_mul_inv]

private theorem nearestNat_eq_floor (value : BinaryFraction) :
    value.nearestNat = ⌊(value.mantissa : ℚ) / 2 ^ value.places + 1 / 2⌋₊ := by
  have exact : (value.mantissa : ℚ) / 2 ^ value.places + 1 / 2 =
      ((2 * value.mantissa + 2 ^ value.places : ℕ) : ℚ) / ((2 ^ (value.places + 1) : ℕ) : ℚ) := by
    push_cast
    field_simp
    ring
  rw [exact, Nat.floor_div_eq_div, nearestNat, Nat.pow_eq, Nat.pow_eq]

private theorem nearestNat_ofFloat_lt {value : Float} (some : (ofFloat value).places ≠ 0) :
    (ofFloat value).nearestNat < 2 ^ 53 := by
  rw [nearestNat, Nat.pow_eq, Nat.pow_eq]
  apply Nat.div_lt_of_lt_mul
  have power : 0 < 2 ^ (ofFloat value).places := Nat.two_pow_pos _
  have small : (ofFloat value).mantissa < 2 ^ 53 := by
    simp only [ofFloat, Nat.pow_eq] at some ⊢
    rw [show max (value.toBits.toNat / 2 ^ 52 % 2 ^ 11) 1 - 1075 = 0 by omega, pow_zero, mul_one]
    split <;> omega
  rw [pow_succ]
  omega

end BinaryFraction

theorem floor_natCast_add_half (integer : ℕ) : ⌊(integer : ℚ) + 1 / 2⌋₊ = integer := by
  rw [Nat.floor_eq_iff (by positivity)]
  constructor <;> linarith

/-- A value is rounded to the nearest integer exactly, a half going up in magnitude. Only a negative zero
loses its sign. -/
theorem denotes_nearestInteger (denotes : Denotes value sign magnitude) :
    ∃ rounded, Denotes (nearestInteger value) rounded ⌊magnitude + 1 / 2⌋₊ ∧
      (sign = .positive ∨ magnitude ≠ 0 → rounded = sign) := by
  have exact := BinaryFraction.ofFloat_eq denotes
  simp only [nearestInteger]
  by_cases whole : (BinaryFraction.ofFloat value).places = 0
  · rw [whole, pow_zero, div_one] at exact
    rw [if_pos whole, ← exact, floor_natCast_add_half, exact]
    exact ⟨sign, denotes, fun _ => rfl⟩
  · have nearest := denotes_ofNat (BinaryFraction.nearestNat_ofFloat_lt whole)
    rw [BinaryFraction.nearestNat_eq_floor, exact] at nearest
    rw [if_neg whole, BinaryFraction.nearestNat_eq_floor, exact]
    split
    · rename_i below
      obtain ⟨rfl, _⟩ := denotes.lt_zero_iff.mp below
      exact ⟨_, nearest.neg, fun _ => rfl⟩
    · rename_i above
      refine ⟨_, nearest, fun known => ?_⟩
      cases sign with
      | positive => rfl
      | negative => exact absurd (denotes.lt_zero_iff.mpr ⟨rfl, known.resolve_left nofun⟩) above

/-- Only a finite value is rounded to a finite integer. -/
theorem isFinite_of_nearestInteger (finite : (nearestInteger value).isFinite = true) :
    value.isFinite = true := by
  simp only [nearestInteger] at finite
  by_cases whole : (BinaryFraction.ofFloat value).places = 0
  · rwa [if_pos whole] at finite
  · have known := fields value
    simp only [BinaryFraction.ofFloat, Nat.pow_eq] at whole
    rw [isFinite_eq]
    cases read : value.toModel.unpack with
    | zero sign => rfl
    | finite sign mantissa exponent positive => rfl
    | infinity sign =>
      rw [read] at known
      cases known with
      | infinity field => omega
    | notANumber =>
      rw [read] at known
      cases known with
      | notANumber field => omega

theorem wholeMagnitude?_eq {integer : ℕ} (denotes : Denotes value sign integer) :
    wholeMagnitude? value = some integer := by
  have exact := BinaryFraction.ofFloat_eq denotes
  have power : 0 < 2 ^ (BinaryFraction.ofFloat value).places := Nat.two_pow_pos _
  rw [div_eq_iff (by positivity)] at exact
  have mantissa : (BinaryFraction.ofFloat value).mantissa =
      integer * 2 ^ (BinaryFraction.ofFloat value).places := by
    exact_mod_cast exact
  rw [wholeMagnitude?, if_pos denotes.isFinite]
  simp only [mantissa, Nat.pow_eq, Nat.mul_div_cancel _ power]

/-! ## Decimal places -/

/-- What rounding to decimal places leaves: the rounded quotient of an integer by the scale, or a magnitude
that is too large to have a fractional part. -/
def OnGrid (places : ℕ) (magnitude : ℚ) : Prop :=
  (∃ integer : ℕ, magnitude = roundMagnitude (integer / 10 ^ places)) ∨ 2 ^ 52 ≤ magnitude

/-- Beyond the grid there are no binary places. -/
theorem not_two_pow_le_of_places {mantissa digits : ℕ} (small : mantissa < 2 ^ 53)
    (some : 1 ≤ digits) : ¬ (2 : ℚ) ^ 52 ≤ mantissa * 2 ^ (-digits : ℤ) := by
  have less : (mantissa : ℚ) < 2 ^ (53 : ℤ) := by exact_mod_cast small
  have half : (mantissa : ℚ) * 2 ^ (-digits : ℤ) < 2 ^ (53 : ℤ) * 2 ^ (-1 : ℤ) :=
    mul_lt_mul less (zpow_le_zpow_right₀ one_le_two (by omega)) (two_zpow_pos _) (two_zpow_pos _).le
  norm_num at half ⊢
  exact half

theorem exists_natCast_of_large (denotes : Denotes value sign magnitude) (large : 2 ^ 52 ≤ magnitude) :
    ∃ integer : ℕ, magnitude = integer := by
  rcases denotes.exists_natCast_or_places with whole | ⟨mantissa, digits, small, some, _, rfl⟩
  · exact whole
  · exact absurd large (not_two_pow_le_of_places small some)

private theorem decimalScale_eq {places : ℕ} (few : places ≤ 22) :
    decimalScale places = Float.ofNat (10 ^ places) := by
  have each : ∀ places < 23, decimalScale places = Float.ofNat (10 ^ places) := by decide +kernel
  exact each places (by omega)

theorem ten_pow_le {places : ℕ} (few : places ≤ 22) : (10 : ℚ) ^ places ≤ 2 ^ 74 :=
  le_trans (pow_le_pow_right₀ (by norm_num) few) (by norm_num)

/-- The product of a power of two with the scale needs no rounding. -/
theorem representable_two_zpow_mul_ten_pow {places : ℕ} (few : places ≤ 22) {exponent : ℤ}
    (fine : -1074 ≤ exponent) : Representable (2 ^ exponent * 10 ^ places) := by
  refine ⟨5 ^ places, exponent + places, ?_, by omega, ?_⟩
  · exact lt_of_le_of_lt (Nat.pow_le_pow_right (by decide) few) (by decide)
  · rw [zpow_add₀ two_ne_zero, zpow_natCast, Nat.cast_pow, Nat.cast_ofNat, mul_left_comm, ← mul_pow]
    norm_num

private theorem representable_ten_pow {places : ℕ} (few : places ≤ 22) : Representable (10 ^ places) := by
  have product := representable_two_zpow_mul_ten_pow few (show -1074 ≤ (0 : ℤ) by decide)
  rwa [zpow_zero, one_mul] at product

/-- The scale is exact up to twenty-two places. -/
theorem denotes_decimalScale {places : ℕ} (few : places ≤ 22) :
    Denotes (decimalScale places) .positive (10 ^ places) := by
  have rounded : Rounded (decimalScale places) .positive (10 ^ places) := by
    rw [decimalScale_eq few]
    exact_mod_cast rounded_ofScientific (10 ^ places) false
  have below : (10 : ℚ) ^ places ≤ (1 : ℕ) * 2 ^ (74 : ℤ) := by
    rw [Nat.cast_one, one_mul]
    exact_mod_cast ten_pow_le few
  have denotes := rounded.denotes
    (rounded.isFinite_of_le (by decide) (by decide) (by decide) below)
  rwa [(representable_ten_pow few).roundMagnitude_eq (by positivity)] at denotes

/-- The rounded quotient of an integer by the scale. -/
def gridPoint (places integer : ℕ) : ℚ :=
  roundMagnitude (integer / 10 ^ places)

theorem gridPoint_mono {places left right : ℕ} (below : left ≤ right) :
    gridPoint places left ≤ gridPoint places right := by
  apply roundMagnitude_mono (by positivity)
  gcongr

/-- The magnitude that is left of a magnitude with decimal places, when its product with the scale is in
range. -/
def roundMagnitudeTo (places : ℕ) (magnitude : ℚ) : ℚ :=
  roundMagnitude (⌊roundMagnitude (magnitude * 10 ^ places) + 1 / 2⌋₊ / 10 ^ places)

private theorem roundMagnitudeTo_eq_zero {places : ℕ}
    (vanishes : roundMagnitude (magnitude * 10 ^ places) = 0) :
    roundMagnitudeTo places magnitude = 0 := by
  rw [roundMagnitudeTo, vanishes, zero_add, Nat.floor_eq_zero.mpr one_half_lt_one, Nat.cast_zero, zero_div,
    roundMagnitude_zero]

theorem roundMagnitudeTo_zero (places : ℕ) : roundMagnitudeTo places 0 = 0 :=
  roundMagnitudeTo_eq_zero (by rw [zero_mul, roundMagnitude_zero])

theorem roundTo_of_not_isFinite {places : ℕ} (overflows : ¬ (value * decimalScale places).isFinite = true) :
    roundTo places value = value :=
  if_neg overflows

/-- A value that is infinite or not a number overflows the scale. -/
theorem roundTo_of_infinite {places : ℕ} (infinite : ¬ value.isFinite = true) : roundTo places value = value :=
  roundTo_of_not_isFinite fun scaled => infinite (isFinite_of_mul scaled).1

/-- Only a large magnitude overflows the scale. -/
theorem two_pow_le_of_not_isFinite {places : ℕ} (few : places ≤ 22) (denotes : Denotes value sign magnitude)
    (overflows : ¬ (value * decimalScale places).isFinite = true) : 2 ^ 52 ≤ magnitude := by
  by_contra small
  apply overflows
  have below : magnitude * 10 ^ places ≤ (1 : ℕ) * 2 ^ (126 : ℤ) := by
    calc magnitude * 10 ^ places ≤ 2 ^ 52 * 2 ^ 74 :=
          mul_le_mul (not_le.mp small).le (ten_pow_le few) (by positivity) (by norm_num)
      _ = (1 : ℕ) * 2 ^ (126 : ℤ) := by norm_num
  exact (denotes.mul (denotes_decimalScale few)).isFinite_of_le (by decide) (by decide) (by decide) below

/-- Rounding to decimal places is rounding of the magnitude, and it leaves no negative zero. -/
theorem denotes_roundTo {places : ℕ} (few : places ≤ 22) (denotes : Denotes value sign magnitude)
    (scaled : (value * decimalScale places).isFinite = true) :
    roundMagnitudeTo places magnitude = 0 ∧ roundTo places value = 0 ∨
      roundMagnitudeTo places magnitude ≠ 0 ∧
        Denotes (roundTo places value) sign (roundMagnitudeTo places magnitude) := by
  have scale := denotes_decimalScale few
  have product := (denotes.mul scale).denotes scaled
  obtain ⟨rounded, nearest, signed⟩ := denotes_nearestInteger product
  have bound : (⌊roundMagnitude (magnitude * 10 ^ places) + 1 / 2⌋₊ : ℚ) / 10 ^ places ≤
      ⌊roundMagnitude (magnitude * 10 ^ places) + 1 / 2⌋₊ :=
    div_le_self (Nat.cast_nonneg _) (one_le_pow₀ (by norm_num))
  have result := (nearest.div scale (by positivity)).denotes_of_le nearest bound
  simp only [roundTo, if_pos scaled]
  split
  · rename_i vanishes
    exact .inl ⟨result.beq_zero_iff.mp vanishes, rfl⟩
  · rename_i some
    have kept : roundMagnitudeTo places magnitude ≠ 0 := mt result.beq_zero_iff.mpr some
    have filled : roundMagnitude (magnitude * 10 ^ places) ≠ 0 := mt roundMagnitudeTo_eq_zero kept
    have sameSign : rounded / Sign.positive = sign := by
      rw [signed (.inr filled)]
      cases sign <;> rfl
    rw [sameSign] at result
    exact .inr ⟨kept, result⟩

/-- A finite value is rounded onto the grid of the scale, and never to negative zero. -/
theorem exists_denotes_roundTo {places : ℕ} (few : places ≤ 22) (finite : value.isFinite = true) :
    ∃ sign magnitude, Denotes (roundTo places value) sign magnitude ∧ OnGrid places magnitude ∧
      (sign = .negative → magnitude ≠ 0) := by
  obtain ⟨sign, magnitude, denotes⟩ := exists_denotes finite
  by_cases scaled : (value * decimalScale places).isFinite = true
  · rcases denotes_roundTo few denotes scaled with ⟨none, vanishes⟩ | ⟨some, result⟩
    · rw [vanishes]
      exact ⟨_, _, denotes_zero, .inl ⟨_, none.symm⟩, nofun⟩
    · exact ⟨_, _, result, .inl ⟨_, rfl⟩, fun _ => some⟩
  · have large := two_pow_le_of_not_isFinite few denotes scaled
    rw [roundTo_of_not_isFinite scaled]
    exact ⟨sign, magnitude, denotes, .inr large, fun _ => (lt_of_lt_of_le (by norm_num) large).ne'⟩

/-- A value is finite after rounding exactly when it is finite before. -/
theorem isFinite_roundTo {places : Nat} (few : places ≤ 22) (value : Float) :
    (roundTo places value).isFinite = value.isFinite := by
  cases finite : value.isFinite with
  | true =>
    obtain ⟨_, _, rounded, _⟩ := exists_denotes_roundTo few finite
    exact rounded.isFinite
  | false =>
    rw [roundTo_of_infinite (Bool.eq_false_iff.mp finite)]
    exact finite

end LineCalc
