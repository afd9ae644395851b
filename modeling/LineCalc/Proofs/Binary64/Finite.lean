import LineCalc.Proofs.Binary64.Operations
import LineCalc.Proofs.Binary64.Packing

/-!
# Finite binary64 values

A finite value is a zero, or canonical and in range, and a canonical value in range stays finite when it is
packed. So a rounded result is finite when the exact one is no larger than some finite value, and the operands
of a finite product, of a finite difference and above a quotient are finite.
-/

set_option autoImplicit false

namespace LineCalc.Binary64

open Float.Model Float.Model.UnpackedFloat

/-! ## Packed values -/

private theorem isFinite_of_isFinite_pack {value : UnpackedFloat}
    (finite : (Float.Model.pack value).isFinite = true) : value.isFinite = true := by
  cases value with
  | infinity sign =>
    rw [Float.Model.isFinite, unpack_pack_infinity] at finite
    cases finite
  | notANumber => cases finite
  | zero sign => rfl
  | finite sign mantissa exponent positive => rfl

theorem isFinite_pack_zero (sign : Sign) : (Float.Model.pack (.zero sign)).isFinite = true := by
  rw [Float.Model.isFinite, unpack_pack_zero]
  rfl

theorem isFinite_pack_finite (sign : Sign) {mantissa : ℕ} {exponent : ℤ} (positive : 0 < mantissa)
    (canonical : Canonical mantissa exponent) (range : exponent ≤ 971) :
    (Float.Model.pack (.finite sign mantissa exponent positive)).isFinite = true := by
  rw [Float.Model.isFinite, unpack_pack_finite sign positive canonical range]
  rfl

/-- A rounded result is finite when the exact one is no larger than some finite value: beyond the range a
canonical value is larger than all of these. -/
theorem Rounds.isFinite_pack {sign : Sign} {magnitude : ℚ} {value : UnpackedFloat}
    (rounds : Rounds sign magnitude value) (positive : 0 < magnitude) {mantissa : ℕ} {exponent : ℤ}
    (small : mantissa < 2 ^ 53) (fine : -1074 ≤ exponent) (range : exponent ≤ 971)
    (below : magnitude ≤ mantissa * 2 ^ exponent) : (Float.Model.pack value).isFinite = true := by
  cases rounds with
  | zero => exact isFinite_pack_zero sign
  | @finite digits place filled rounded same =>
    apply isFinite_pack_finite sign filled rounded
    by_contra beyond
    have full : 2 ^ 52 ≤ digits := rounded.full.resolve_right (by omega)
    have upper := roundMagnitude_le positive small fine below
    rw [same] at upper
    have large : (2 : ℚ) ^ (52 : ℤ) * 2 ^ (972 : ℤ) ≤ digits * 2 ^ place := by
      apply mul_le_mul
      · exact_mod_cast full
      · exact zpow_le_zpow_right₀ one_le_two (by omega)
      · exact (two_zpow_pos _).le
      · exact Nat.cast_nonneg _
    have least : (mantissa : ℚ) * 2 ^ exponent < 2 ^ (53 : ℤ) * 2 ^ (971 : ℤ) := by
      apply mul_lt_mul
      · exact_mod_cast small
      · exact zpow_le_zpow_right₀ one_le_two range
      · exact two_zpow_pos _
      · exact (two_zpow_pos _).le
    rw [← zpow_add₀ two_ne_zero] at large least
    rw [show (52 : ℤ) + 972 = 53 + 971 by decide] at large
    linarith

/-! ## Operations -/

theorem isFinite_eq (value : Float) : value.isFinite = value.toModel.unpack.isFinite := rfl

/-- A finite value is a signed zero, or canonical and in range. -/
theorem unpack_of_isFinite {value : Float} (finite : value.isFinite = true) :
    (∃ sign, value.toModel.unpack = .zero sign) ∨
      ∃ sign mantissa exponent positive,
        value.toModel.unpack = .finite sign mantissa exponent positive ∧
          Canonical mantissa exponent ∧ exponent ≤ 971 := by
  rw [isFinite_eq] at finite
  cases read : value.toModel.unpack with
  | infinity sign => rw [read] at finite; cases finite
  | notANumber => rw [read] at finite; cases finite
  | zero sign => exact .inl ⟨sign, rfl⟩
  | finite sign mantissa exponent positive =>
    exact .inr ⟨sign, mantissa, exponent, positive, rfl, unpack_canonical read⟩

theorem isFinite_of_mul {left right : Float} (finite : (left * right).isFinite = true) :
    left.isFinite = true ∧ right.isFinite = true := by
  have product : (UnpackedFloat.mul Format.binary64 left.toModel.unpack
      right.toModel.unpack).isFinite = true := isFinite_of_isFinite_pack finite
  rw [isFinite_eq, isFinite_eq]
  generalize left.toModel.unpack = first at product
  generalize right.toModel.unpack = second at product
  cases first <;> cases second <;> simp_all [UnpackedFloat.mul, UnpackedFloat.isFinite]

theorem isFinite_of_div {left right : Float} (finite : (left / right).isFinite = true) :
    left.isFinite = true := by
  have quotient : (UnpackedFloat.div Format.binary64 left.toModel.unpack
      right.toModel.unpack).isFinite = true := isFinite_of_isFinite_pack finite
  rw [isFinite_eq]
  generalize left.toModel.unpack = first at quotient
  generalize right.toModel.unpack = second at quotient
  cases first <;> cases second <;> simp_all [UnpackedFloat.div, UnpackedFloat.isFinite]

theorem isFinite_of_sub {left right : Float} (finite : (left - right).isFinite = true) :
    left.isFinite = true ∧ right.isFinite = true := by
  have difference : (UnpackedFloat.sub Format.binary64 left.toModel.unpack
      right.toModel.unpack).isFinite = true := isFinite_of_isFinite_pack finite
  rw [isFinite_eq, isFinite_eq]
  generalize left.toModel.unpack = first at difference
  generalize right.toModel.unpack = second at difference
  cases first <;> cases second <;> simp_all [UnpackedFloat.sub, UnpackedFloat.isFinite]
  rename_i leftSign rightSign
  cases leftSign <;> cases rightSign <;> cases difference

end LineCalc.Binary64
