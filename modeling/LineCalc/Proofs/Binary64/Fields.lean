import LineCalc.Proofs.Binary64.Rounding

/-!
# The fields of a binary64 value

The bits of a value are a sign bit, eleven bits of exponent and fifty-two of fraction. What a value is
read as says what its fields are, and a value is determined by what it is read as.
-/

set_option autoImplicit false

namespace LineCalc.Binary64

open Float.Model Float.Model.UnpackedFloat

theorem exponentBias_binary64 : Format.binary64.exponentBias = 1023 := rfl

/-- The leading digit that the bits of a normal value leave out. -/
theorem toNat_leading_digit (fraction : BitVec 52) :
    (1#1 ++ fraction).toNat = 2 ^ 52 + fraction.toNat := by
  have digits : fraction.toNat < 2 ^ 52 := fraction.isLt
  rw [BitVec.toNat_append, Nat.shiftLeft_eq, Nat.mul_comm, ← Nat.two_pow_add_eq_or_of_lt digits]
  rfl

private theorem toNat_unpackMantissa (bits : BitVec Format.binary64.numBits) :
    (unpackMantissa bits).toNat = bits.toNat % 2 ^ 52 := by
  rw [unpackMantissa, BitVec.toNat_cast, BitVec.extractLsb_toNat, Nat.shiftRight_zero]
  rfl

private theorem toNat_unpackExponent (bits : BitVec Format.binary64.numBits) :
    (unpackExponent bits).toNat = bits.toNat / 2 ^ 52 % 2 ^ 11 := by
  rw [unpackExponent, BitVec.toNat_cast, BitVec.extractLsb_toNat, Nat.shiftRight_eq_div_pow]
  rfl

private theorem toNat_unpackSign (bits : BitVec Format.binary64.numBits) :
    (unpackSign bits).toNat = bits.toNat / 2 ^ 63 % 2 := by
  rw [unpackSign, BitVec.toNat_cast, BitVec.extractLsb_toNat, Nat.shiftRight_eq_div_pow]
  rfl

/-- The fields of bits by what is read from them. -/
inductive Fields (bits : ℕ) : UnpackedFloat → Prop where
  | zero {sign : Sign} (field : bits / 2 ^ 52 % 2 ^ 11 = 0) (fraction : bits % 2 ^ 52 = 0) :
      Fields bits (.zero sign)
  | subnormal {sign : Sign} {mantissa : ℕ} {positive : 0 < mantissa}
      (field : bits / 2 ^ 52 % 2 ^ 11 = 0) (fraction : bits % 2 ^ 52 = mantissa) :
      Fields bits (.finite sign mantissa (-1074) positive)
  | normal {sign : Sign} {mantissa : ℕ} {exponent : ℤ} {positive : 0 < mantissa}
      (lower : -1074 ≤ exponent) (upper : exponent ≤ 971)
      (field : (bits / 2 ^ 52 % 2 ^ 11 : ℕ) = exponent + 1075)
      (fraction : 2 ^ 52 + bits % 2 ^ 52 = mantissa) : Fields bits (.finite sign mantissa exponent positive)
  | infinity {sign : Sign} (field : bits / 2 ^ 52 % 2 ^ 11 = 2047) : Fields bits (.infinity sign)
  | notANumber (field : bits / 2 ^ 52 % 2 ^ 11 = 2047) : Fields bits .notANumber

private theorem fields_unpack (bits : BitVec Format.binary64.numBits) :
    Fields bits.toNat (UnpackedFloat.unpack Format.binary64 bits) := by
  have field := toNat_unpackExponent bits
  have fraction := toNat_unpackMantissa bits
  have width : (unpackExponent bits).toNat < 2048 := (unpackExponent bits).isLt
  unfold UnpackedFloat.unpack
  simp only [exponentBias_binary64]
  split
  · rename_i full
    have most : (unpackExponent bits).toNat = 2047 := congrArg BitVec.toNat full
    split
    · exact .infinity (field.symm.trans most)
    · exact .notANumber (field.symm.trans most)
  · rename_i special
    split
    · rename_i zero
      have none : (unpackExponent bits).toNat = 0 := congrArg BitVec.toNat zero
      split
      · rename_i empty
        have nothing : (unpackMantissa bits).toNat = 0 := congrArg BitVec.toNat empty
        exact .zero (field.symm.trans none) (fraction.symm.trans nothing)
      · have exponent : ((unpackExponent bits).toNat : ℤ) - ((1023 : ℕ) + (52 : ℕ)) + 1 = -1074 := by
          omega
        simp only [exponent]
        exact .subnormal (field.symm.trans none) fraction.symm
    · rename_i normal
      have lower : (unpackExponent bits).toNat ≠ 0 := fun same => normal (BitVec.eq_of_toNat_eq same)
      have upper : (unpackExponent bits).toNat ≠ 2047 :=
        fun same => special (BitVec.eq_of_toNat_eq same)
      refine .normal (by omega) (by omega) (by omega) ?_
      rw [toNat_leading_digit, fraction]

theorem fields (value : Float) : Fields value.toBits.toNat value.toModel.unpack :=
  fields_unpack value.toBits.toBitVec

theorem eq_of_unpack_eq {left right : Float} (same : left.toModel.unpack = right.toModel.unpack) :
    left = right :=
  Float.toBits_inj.mp (UInt64.toBitVec_inj.mp
    ((unpack_inj_of_valid left.toModel.valid right.toModel.valid).mp same))

theorem unpack_canonical {value : Float} {sign : Sign} {mantissa : ℕ} {exponent : ℤ}
    {positive : 0 < mantissa} (read : value.toModel.unpack = .finite sign mantissa exponent positive) :
    Canonical mantissa exponent ∧ exponent ≤ 971 := by
  have known := fields value
  rw [read] at known
  cases known with
  | subnormal field fraction =>
    exact ⟨⟨by omega, by decide, .inr rfl⟩, by decide⟩
  | normal lower upper field fraction =>
    exact ⟨⟨by omega, lower, .inl (by omega)⟩, upper⟩

/-! ## Signs -/

/-- What is read with a sign has that of the leading bit. -/
inductive Signed (sign : Sign) : UnpackedFloat → Prop where
  | zero : Signed sign (.zero sign)
  | finite {mantissa : ℕ} {exponent : ℤ} {positive : 0 < mantissa} :
      Signed sign (.finite sign mantissa exponent positive)
  | infinity : Signed sign (.infinity sign)
  | notANumber : Signed sign .notANumber

private theorem signed_unpack (bits : BitVec Format.binary64.numBits) :
    Signed (.ofBitVec (unpackSign bits)) (UnpackedFloat.unpack Format.binary64 bits) := by
  unfold UnpackedFloat.unpack
  simp only
  split_ifs
  · exact .infinity
  · exact .notANumber
  · exact .zero
  · exact .finite
  · exact .finite

theorem ofBitVec_unpackSign_eq_negative_iff (bits : BitVec Format.binary64.numBits) :
    Sign.ofBitVec (unpackSign bits) = .negative ↔ 2 ^ 63 ≤ bits.toNat := by
  have width : bits.toNat < 2 ^ 64 := bits.isLt
  have leading := toNat_unpackSign bits
  have clear : unpackSign bits = 0#1 ↔ (unpackSign bits).toNat = 0 :=
    ⟨fun same => congrArg BitVec.toNat same, fun same => BitVec.eq_of_toNat_eq same⟩
  rw [Sign.ofBitVec]
  split
  · rename_i none
    refine iff_of_false nofun ?_
    rw [clear] at none
    omega
  · rename_i some
    refine iff_of_true rfl ?_
    rw [clear] at some
    omega

/-- A value is read with the sign that its leading bit says. -/
theorem exists_signed (value : Float) :
    ∃ sign, Signed sign value.toModel.unpack ∧ (sign = .negative ↔ 2 ^ 63 ≤ value.toBits.toNat) :=
  ⟨_, signed_unpack value.toBits.toBitVec, ofBitVec_unpackSign_eq_negative_iff value.toBits.toBitVec⟩

end LineCalc.Binary64
