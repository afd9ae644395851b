import LineCalc.Proofs.Binary64.Fields

/-!
# Packing binary64 values

What is packed into bits is read back from them: a special value, a signed zero, and a canonical value
in range. A canonical value beyond the range is packed as an infinity.
-/

set_option autoImplicit false

namespace LineCalc.Binary64

open Float.Model Float.Model.UnpackedFloat

/-! ## Components -/

private theorem unpack_packComponents_subnormal (sign : Sign) {fraction : BitVec 52}
    (positive : 0 < fraction.toNat) :
    UnpackedFloat.unpack Format.binary64 (packComponents Format.binary64 sign 0#11 fraction) =
      .finite sign fraction.toNat (-1074) positive := by
  have filled : fraction ≠ 0#52 := by
    rintro rfl
    exact absurd positive (by decide)
  unfold UnpackedFloat.unpack
  simp only [unpackMantissa_packComponents, unpackExponent_packComponents, unpackSign_packComponents,
    Sign.ofBitVec_toBitVec, if_true, dif_neg filled]
  rfl

private theorem unpack_packComponents_normal (sign : Sign) {field : BitVec 11} (fraction : BitVec 52)
    (lower : field ≠ 0#11) (upper : field ≠ -1#11) :
    UnpackedFloat.unpack Format.binary64 (packComponents Format.binary64 sign field fraction) =
      .finite sign (1#1 ++ fraction).toNat (field.toNat - 1075)
        (by rw [toNat_leading_digit]; exact Nat.add_pos_left (by decide) _) := by
  unfold UnpackedFloat.unpack
  simp only [unpackMantissa_packComponents, unpackExponent_packComponents, unpackSign_packComponents,
    Sign.ofBitVec_toBitVec, if_neg lower, if_neg upper]
  rfl

/-! ## Values -/

theorem unpack_pack (value : UnpackedFloat) : (Float.Model.pack value).unpack =
    UnpackedFloat.unpack Format.binary64 (UnpackedFloat.pack Format.binary64 value) := by
  rw [Float.Model.unpack, Float.Model.pack, UInt64.toBitVec_ofBitVec]

theorem unpack_pack_zero (sign : Sign) : (Float.Model.pack (.zero sign)).unpack = .zero sign := by
  cases sign <;> rfl

theorem unpack_pack_infinity (sign : Sign) :
    (Float.Model.pack (.infinity sign)).unpack = .infinity sign := by
  cases sign <;> rfl

theorem unpack_pack_finite (sign : Sign) {mantissa : ℕ} {exponent : ℤ} (positive : 0 < mantissa)
    (canonical : Canonical mantissa exponent) (range : exponent ≤ 971) :
    (Float.Model.pack (.finite sign mantissa exponent positive)).unpack =
      .finite sign mantissa exponent positive := by
  have fields : 2 ^ Format.binary64.exponentBits = 2048 := rfl
  have digits : Format.binary64.mantissaBits = 53 := rfl
  have lowest := canonical.fine
  have small := canonical.small
  have field : ((exponent + (1023 : ℕ) + (52 : ℕ)).toNat : ℤ) = exponent + 1075 := by omega
  rw [unpack_pack, UnpackedFloat.pack, exponentBias_binary64, fields, digits]
  generalize (exponent + (1023 : ℕ) + (52 : ℕ)).toNat = biased at field
  rw [if_neg (by omega)]
  by_cases full : 2 ^ 52 ≤ mantissa
  · have log : mantissa.log2 = 52 :=
      (Nat.log2_eq_iff positive.ne').mpr ⟨full, small⟩
    have stored : (BitVec.ofNat 11 biased).toNat = biased := Nat.mod_eq_of_lt (by omega)
    have lower : BitVec.ofNat 11 biased ≠ 0#11 := by
      intro same
      have none := stored.symm.trans (congrArg BitVec.toNat same)
      change biased = 0 at none
      omega
    have upper : BitVec.ofNat 11 biased ≠ -1#11 := by
      intro same
      have most := stored.symm.trans (congrArg BitVec.toNat same)
      change biased = 2047 at most
      omega
    have leading : (1#1 ++ BitVec.ofNat 52 mantissa).toNat = mantissa := by
      rw [toNat_leading_digit, BitVec.toNat_ofNat]
      omega
    rw [if_pos (by omega), unpack_packComponents_normal sign _ lower upper]
    simp only [leading, stored]
    congr 1
    omega
  · have log : mantissa.log2 < 52 := (Nat.log2_lt positive.ne').mpr (by omega)
    have stored : (BitVec.ofNat 52 mantissa).toNat = mantissa := Nat.mod_eq_of_lt (by omega)
    rw [if_neg (by omega), unpack_packComponents_subnormal sign (by rw [stored]; exact positive)]
    simp only [stored, canonical.full.resolve_left full]

theorem unpack_pack_beyond (sign : Sign) {mantissa : ℕ} {exponent : ℤ} (positive : 0 < mantissa)
    (beyond : 972 ≤ exponent) :
    (Float.Model.pack (.finite sign mantissa exponent positive)).unpack = .infinity sign := by
  have field : 2048 ≤ (exponent + (1023 : ℕ) + (52 : ℕ)).toNat + 1 := by omega
  have packed : UnpackedFloat.pack Format.binary64 (.finite sign mantissa exponent positive) =
      packedInfinity Format.binary64 sign := if_pos field
  rw [← unpack_pack_infinity, unpack_pack, unpack_pack, packed, UnpackedFloat.pack]

/-! ## Signs -/

theorem unpack_neg (value : Float) : (-value).toModel.unpack = value.toModel.unpack.neg := by
  change (Float.Model.pack value.toModel.unpack.neg).unpack = value.toModel.unpack.neg
  cases read : value.toModel.unpack with
  | zero sign => exact unpack_pack_zero (-sign)
  | infinity sign => exact unpack_pack_infinity (-sign)
  | notANumber => rfl
  | finite sign mantissa exponent positive =>
    obtain ⟨canonical, range⟩ := unpack_canonical read
    exact unpack_pack_finite (-sign) positive canonical range

theorem unpack_abs (value : Float) : value.abs.toModel.unpack = value.toModel.unpack.abs := by
  change (Float.Model.pack value.toModel.unpack.abs).unpack = value.toModel.unpack.abs
  cases read : value.toModel.unpack with
  | zero sign => exact unpack_pack_zero .positive
  | infinity sign => exact unpack_pack_infinity .positive
  | notANumber => rfl
  | finite sign mantissa exponent positive =>
    obtain ⟨canonical, range⟩ := unpack_canonical read
    exact unpack_pack_finite .positive positive canonical range

end LineCalc.Binary64
