import LineCalc.Proofs.Binary64.Finite
import LineCalc.Proofs.Binary64.Representable

/-!
# What a binary64 value denotes

A finite value denotes a sign and an exact magnitude, and it is determined by them. A product or a
quotient that stays finite denotes the rounding of the exact one, and an integer that needs no rounding is
denoted by the value that is read from it.
-/

set_option autoImplicit false

namespace LineCalc.Binary64

open Float.Model Float.Model.UnpackedFloat

/-- A finite value with its sign and its exact magnitude. -/
inductive Denotes (value : Float) (sign : Sign) : ℚ → Prop where
  | zero (read : value.toModel.unpack = .zero sign) : Denotes value sign 0
  | finite {mantissa : ℕ} {exponent : ℤ} {positive : 0 < mantissa}
      (read : value.toModel.unpack = .finite sign mantissa exponent positive) :
      Denotes value sign (mantissa * 2 ^ exponent)

variable {value left right : Float} {sign leftSign rightSign : Sign}
  {magnitude leftMagnitude rightMagnitude : ℚ}

theorem exists_denotes (finite : value.isFinite = true) :
    ∃ sign magnitude, Denotes value sign magnitude := by
  obtain ⟨sign, read⟩ | ⟨sign, mantissa, exponent, positive, read, _⟩ := unpack_of_isFinite finite
  · exact ⟨sign, 0, .zero read⟩
  · exact ⟨sign, _, .finite read⟩

theorem Denotes.isFinite (denotes : Denotes value sign magnitude) : value.isFinite = true := by
  rw [isFinite_eq]
  cases denotes with
  | zero read => rw [read]; rfl
  | finite read => rw [read]; rfl

theorem Denotes.nonneg (denotes : Denotes value sign magnitude) : 0 ≤ magnitude := by
  cases denotes with
  | zero => exact le_refl 0
  | @finite mantissa exponent positive => exact (magnitude_pos positive exponent).le

theorem Denotes.representable (denotes : Denotes value sign magnitude) : Representable magnitude := by
  cases denotes with
  | zero =>
    have none : (0 : ℕ) < 2 ^ 53 := by decide
    exact_mod_cast representable_natCast none
  | finite read => exact (unpack_canonical read).1.representable

/-- A magnitude is an integer, or it has binary places. -/
theorem Denotes.exists_natCast_or_places (denotes : Denotes value sign magnitude) :
    (∃ integer : ℕ, magnitude = integer) ∨
      ∃ mantissa digits : ℕ, mantissa < 2 ^ 53 ∧ 1 ≤ digits ∧ digits ≤ 1074 ∧
        magnitude = mantissa * 2 ^ (-digits : ℤ) := by
  cases denotes with
  | zero => exact .inl ⟨0, Nat.cast_zero.symm⟩
  | @finite mantissa exponent positive read =>
    obtain ⟨canonical, _⟩ := unpack_canonical read
    have lowest := canonical.fine
    rcases le_or_gt 0 exponent with whole | part
    · obtain ⟨digits, rfl⟩ := Int.eq_ofNat_of_zero_le whole
      exact .inl ⟨mantissa * 2 ^ digits, by push_cast; rfl⟩
    · obtain ⟨digits, same⟩ := Int.eq_ofNat_of_zero_le (show 0 ≤ -exponent by omega)
      obtain rfl : exponent = -digits := by omega
      exact .inr ⟨mantissa, digits, canonical.small, by omega, by omega, rfl⟩

/-- Only one value denotes a sign and a magnitude. -/
theorem Denotes.unique (first : Denotes left sign magnitude) (second : Denotes right sign magnitude) :
    left = right := by
  generalize same : magnitude = other at second
  cases first with
  | zero read =>
    cases second with
    | zero otherRead => exact eq_of_unpack_eq (read.trans otherRead.symm)
    | @finite mantissa exponent positive => exact absurd same (magnitude_pos positive exponent).ne
  | @finite mantissa exponent positive read =>
    cases second with
    | zero => exact absurd same (magnitude_pos positive exponent).ne'
    | @finite digits place filled otherRead =>
      obtain ⟨rfl, rfl⟩ := (unpack_canonical read).1.unique positive filled
        (unpack_canonical otherRead).1 same
      exact eq_of_unpack_eq (read.trans otherRead.symm)

/-- A value denotes one sign and one magnitude. -/
theorem Denotes.eq (first : Denotes value leftSign leftMagnitude)
    (second : Denotes value rightSign rightMagnitude) :
    leftSign = rightSign ∧ leftMagnitude = rightMagnitude := by
  cases first with
  | zero read =>
    cases second with
    | zero otherRead =>
      cases read.symm.trans otherRead
      exact ⟨rfl, rfl⟩
    | finite otherRead => cases read.symm.trans otherRead
  | finite read =>
    cases second with
    | zero otherRead => cases read.symm.trans otherRead
    | finite otherRead =>
      cases read.symm.trans otherRead
      exact ⟨rfl, rfl⟩

/-! ## Signs -/

theorem Denotes.abs (denotes : Denotes value sign magnitude) : Denotes value.abs .positive magnitude := by
  cases denotes with
  | zero read => exact .zero (by rw [unpack_abs, read]; rfl)
  | finite read => exact .finite (by rw [unpack_abs, read]; rfl)

theorem Denotes.neg (denotes : Denotes value sign magnitude) : Denotes (-value) (-sign) magnitude := by
  cases denotes with
  | zero read => exact .zero (by rw [unpack_neg, read]; rfl)
  | finite read => exact .finite (by rw [unpack_neg, read]; rfl)

/-! ## Rounded results -/

/-- A value that an exact result is rounded to, which is infinite when the result is too large. -/
inductive Rounded (value : Float) (sign : Sign) : ℚ → Prop where
  | zero (read : value.toModel.unpack = .zero sign) : Rounded value sign 0
  | packed {magnitude : ℚ} {unpacked : UnpackedFloat} (positive : 0 < magnitude)
      (rounds : Rounds sign magnitude unpacked) (model : value.toModel = Float.Model.pack unpacked) :
      Rounded value sign magnitude

/-- A result that stays finite denotes the rounded magnitude. -/
theorem Rounded.denotes (rounded : Rounded value sign magnitude) (finite : value.isFinite = true) :
    Denotes value sign (roundMagnitude magnitude) := by
  cases rounded with
  | zero read =>
    rw [roundMagnitude_zero]
    exact .zero read
  | packed _ rounds model =>
    cases rounds with
    | zero vanishes =>
      rw [vanishes]
      exact .zero (by rw [model, unpack_pack_zero])
    | @finite mantissa exponent positive canonical rounded =>
      rw [rounded]
      rcases le_or_gt exponent 971 with range | beyond
      · exact .finite (by rw [model, unpack_pack_finite sign positive canonical range])
      · rw [isFinite_eq, model, unpack_pack_beyond sign positive (by omega)] at finite
        cases finite

/-- A result stays finite when the exact one is no larger than a magnitude in range. -/
theorem Rounded.isFinite_of_le (rounded : Rounded value sign magnitude) {mantissa : ℕ} {exponent : ℤ}
    (small : mantissa < 2 ^ 53) (fine : -1074 ≤ exponent) (range : exponent ≤ 971)
    (below : magnitude ≤ mantissa * 2 ^ exponent) : value.isFinite = true := by
  cases rounded with
  | zero read => exact (Denotes.zero read).isFinite
  | packed positive rounds model =>
    change value.toModel.isFinite = true
    rw [model]
    exact rounds.isFinite_pack positive small fine range below

private theorem Rounded.nonneg (rounded : Rounded value sign magnitude) : 0 ≤ magnitude := by
  cases rounded with
  | zero => exact le_refl 0
  | packed positive => exact positive.le

/-- A result stays finite when some finite value is no smaller than the rounded one. -/
theorem Rounded.isFinite_of_roundMagnitude_le (rounded : Rounded value sign magnitude) {bound : Float}
    {boundSign : Sign} {boundMagnitude : ℚ} (bounds : Denotes bound boundSign boundMagnitude)
    (below : roundMagnitude magnitude ≤ boundMagnitude) : value.isFinite = true := by
  cases rounded with
  | zero read => exact (Denotes.zero read).isFinite
  | packed _ rounds model =>
    change value.toModel.isFinite = true
    rw [model]
    cases rounds with
    | zero => exact isFinite_pack_zero sign
    | @finite mantissa exponent positive canonical same =>
      rw [same] at below
      apply isFinite_pack_finite sign positive canonical
      cases bounds with
      | zero => exact absurd below (not_le.mpr (magnitude_pos positive exponent))
      | @finite digits place filled read =>
        obtain ⟨boundCanonical, range⟩ := unpack_canonical read
        have places := placeOf_mono (magnitude_pos positive exponent) below
        rw [canonical.placeOf_eq positive, boundCanonical.placeOf_eq filled] at places
        exact places.trans range

/-- A result stays finite when some finite value is no smaller than the exact one. -/
theorem Rounded.denotes_of_le (rounded : Rounded value sign magnitude) {bound : Float}
    {boundSign : Sign} {boundMagnitude : ℚ} (bounds : Denotes bound boundSign boundMagnitude)
    (below : magnitude ≤ boundMagnitude) : Denotes value sign (roundMagnitude magnitude) :=
  rounded.denotes (rounded.isFinite_of_roundMagnitude_le bounds
    (roundMagnitude_le_of_representable rounded.nonneg bounds.representable below))

/-- A result stays finite when a finite value has the rounded magnitude. -/
theorem Rounded.denotes_of_roundMagnitude (rounded : Rounded left leftSign magnitude)
    (reached : Denotes right rightSign (roundMagnitude magnitude)) :
    Denotes left leftSign (roundMagnitude magnitude) :=
  rounded.denotes (rounded.isFinite_of_roundMagnitude_le reached (le_refl _))

/-- A result that needs no rounding is the value that denotes it. -/
theorem Rounded.eq_of_denotes (rounded : Rounded left sign magnitude)
    (denotes : Denotes right sign magnitude) : left = right := by
  have result := rounded.denotes_of_le denotes (le_refl _)
  rw [denotes.representable.roundMagnitude_eq denotes.nonneg] at result
  exact result.unique denotes

theorem Denotes.mul (first : Denotes left leftSign leftMagnitude)
    (second : Denotes right rightSign rightMagnitude) :
    Rounded (left * right) (leftSign * rightSign) (leftMagnitude * rightMagnitude) := by
  have model : (left * right).toModel = Float.Model.pack (UnpackedFloat.mul Format.binary64
      left.toModel.unpack right.toModel.unpack) := rfl
  cases first with
  | zero read =>
    rw [zero_mul]
    apply Rounded.zero
    cases second with
    | zero otherRead =>
      rw [model, read, otherRead]
      exact unpack_pack_zero (leftSign * rightSign)
    | finite otherRead =>
      rw [model, read, otherRead]
      exact unpack_pack_zero (leftSign * rightSign)
  | @finite mantissa exponent positive read =>
    cases second with
    | zero otherRead =>
      rw [mul_zero]
      apply Rounded.zero
      rw [model, read, otherRead]
      exact unpack_pack_zero (leftSign * rightSign)
    | @finite digits place filled otherRead =>
      rw [read, otherRead] at model
      exact .packed (mul_pos (magnitude_pos positive exponent) (magnitude_pos filled place))
        (mul_rounds positive filled (unpack_canonical read).1 (unpack_canonical otherRead).1) model

theorem Denotes.div (first : Denotes left leftSign leftMagnitude)
    (second : Denotes right rightSign rightMagnitude) (divisor : rightMagnitude ≠ 0) :
    Rounded (left / right) (leftSign / rightSign) (leftMagnitude / rightMagnitude) := by
  have model : (left / right).toModel = Float.Model.pack (UnpackedFloat.div Format.binary64
      left.toModel.unpack right.toModel.unpack) := rfl
  cases second with
  | zero => exact absurd rfl divisor
  | @finite digits place filled otherRead =>
    cases first with
    | zero read =>
      rw [zero_div]
      apply Rounded.zero
      rw [model, read, otherRead]
      exact unpack_pack_zero (leftSign / rightSign)
    | @finite mantissa exponent positive read =>
      rw [read, otherRead] at model
      exact .packed (div_pos (magnitude_pos positive exponent) (magnitude_pos filled place))
        (div_rounds positive filled) model

/-! ## Integers -/

private theorem unpack_one :
    (1 : Float).toModel.unpack = .finite .positive (2 ^ 52) (-52) (by decide) :=
  rfl

theorem denotes_one : Denotes 1 .positive 1 := by
  have one : ((2 ^ 52 : ℕ) : ℚ) * 2 ^ (-52 : ℤ) = 1 := by norm_num
  rw [← one]
  exact .finite unpack_one

theorem denotes_toFloat {integer : ℕ} (small : integer < 2 ^ 53) :
    Denotes integer.toUInt64.toFloat .positive integer := by
  have word : integer.toUInt64.toNat = integer := by
    rw [UInt64.toNat_ofNat']
    omega
  have model : integer.toUInt64.toFloat.toModel =
      Float.Model.pack (UnpackedFloat.ofNat Format.binary64 integer.toUInt64.toNat) := rfl
  rw [word, UnpackedFloat.ofNat, UnpackedFloat.ofInt, UnpackedFloat.normalize] at model
  rcases Nat.eq_zero_or_pos integer with rfl | positive
  · rw [Nat.cast_zero]
    exact .zero (by rw [model]; rfl)
  · have exact : ((integer : ℕ) : ℚ) * 2 ^ (0 : ℤ) = integer := by rw [zpow_zero, mul_one]
    have rounds := round_rounds .positive positive 0
    rw [Int.compare_eq_gt.mpr (by omega), Int.toNat_natCast] at model
    rw [exact] at rounds
    have rounded : Rounded integer.toUInt64.toFloat .positive integer :=
      .packed (Nat.cast_pos.mpr positive) rounds model
    have denotes := rounded.denotes
      (rounded.isFinite_of_le small (by decide) (by decide) (le_of_eq exact.symm))
    rwa [(representable_natCast small).roundMagnitude_eq (Nat.cast_nonneg _)] at denotes

private theorem ofScientific_zero {integer : ℕ} (positive : 0 < integer) :
    UnpackedFloat.ofScientific Format.binary64 integer 0 =
      roundWithAccuracy Format.binary64 .positive (integer * 2 ^ 53) (-53) .exact := by
  have digits : Format.binary64.mantissaBits = 53 := rfl
  rw [UnpackedFloat.ofScientific, dif_neg positive.ne', if_neg (by decide), if_neg, if_pos (le_refl 0),
    ← Nat.shiftLeft_eq, ← Nat.mul_one (integer <<< 53)]
  · rfl
  · have power : (0 : ℤ) < 2 ^ Format.binary64.exponentBits := by decide
    omega

private theorem ofScientific_rounds {integer : ℕ} (positive : 0 < integer) :
    Rounds .positive integer (UnpackedFloat.ofScientific Format.binary64 integer 0) := by
  have exact : (integer : ℚ) = ((integer * 2 ^ 53 : ℕ) : ℚ) * 2 ^ (-53 : ℤ) := by
    rw [zpow_neg, Nat.cast_mul, mul_assoc, Nat.cast_pow]
    norm_num
  have product : 0 < integer * 2 ^ 53 := Nat.mul_pos positive (by decide)
  rw [ofScientific_zero positive, exact]
  apply roundWithAccuracy_rounds _ (marks_natCast _) (Nat.cast_pos.mpr product)
  rw [placeOf, log_mul_two_zpow product (le_refl _) (lt_add_one _)]
  have digits : 53 ≤ (integer * 2 ^ 53).log2 :=
    (Nat.le_log2 product.ne').mpr (Nat.le_mul_of_pos_left _ positive)
  omega

/-- An integer is read as its rounding, with the point at its end or without one. -/
theorem rounded_ofScientific (integer : ℕ) (negative : Bool) :
    Rounded (Float.ofScientific integer negative 0) .positive integer := by
  by_cases small : integer < 2 ^ 53
  · have whole := denotes_toFloat small
    rw [Float.ofScientific, dif_pos ⟨small, Nat.zero_le 22⟩]
    cases negative with
    | false =>
      have product := whole.mul denotes_one
      rwa [mul_one] at product
    | true =>
      have quotient := whole.div denotes_one one_ne_zero
      rwa [div_one] at quotient
  · have positive : 0 < integer := by omega
    have exponent : (if negative = true then Int.negOfNat 0 else Int.ofNat 0) = 0 := by
      cases negative <;> rfl
    rw [Float.ofScientific, dif_neg fun fast => small fast.1, exponent]
    exact .packed (Nat.cast_pos.mpr positive) (ofScientific_rounds positive) rfl

theorem denotes_ofNat {integer : ℕ} (small : integer < 2 ^ 53) :
    Denotes (Float.ofNat integer) .positive integer := by
  have denotes := denotes_toFloat small
  have same : Float.ofNat integer = integer.toUInt64.toFloat :=
    (rounded_ofScientific integer false).eq_of_denotes denotes
  rwa [same]

end LineCalc.Binary64
