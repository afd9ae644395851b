import LineCalc.Proofs.Binary64.Denotation

/-!
# Distances in binary64

The distance of two finite values is zero only if they are equal: the exact difference of unequal ones is a
multiple of the smallest positive value, so it is not rounded away. A distance that is not zero is above
zero, and only a finite one is below any other value.
-/

set_option autoImplicit false

namespace LineCalc.Binary64

open Float.Model Float.Model.UnpackedFloat

variable {value left right : Float} {sign leftSign rightSign : Sign}
  {magnitude leftMagnitude rightMagnitude : ℚ}

theorem denotes_zero : Denotes 0 .positive 0 :=
  .zero rfl

/-! ## Comparison with zero -/

theorem lt_iff : left < right ↔ left.toModel.unpack.compare right.toModel.unpack = some .lt := by
  change decide (UnpackedFloat.lt left.toModel.unpack right.toModel.unpack = true) = true ↔ _
  rw [decide_eq_true_iff, UnpackedFloat.lt, beq_iff_eq]

private theorem unpack_zero : (0 : Float).toModel.unpack = .zero .positive :=
  rfl

theorem Denotes.lt_zero_iff (denotes : Denotes value sign magnitude) :
    value < 0 ↔ sign = .negative ∧ magnitude ≠ 0 := by
  rw [lt_iff, unpack_zero]
  cases denotes with
  | zero read =>
    rw [read]
    simp [UnpackedFloat.compare]
  | @finite mantissa exponent positive read =>
    rw [read]
    have some := (magnitude_pos positive exponent).ne'
    cases sign with
    | positive => simp [UnpackedFloat.compare]
    | negative => exact iff_of_true rfl ⟨rfl, some⟩

theorem Denotes.beq_zero_iff (denotes : Denotes value sign magnitude) :
    (value == 0) = true ↔ magnitude = 0 := by
  change UnpackedFloat.beq value.toModel.unpack (0 : Float).toModel.unpack = true ↔ _
  rw [UnpackedFloat.beq, beq_iff_eq, unpack_zero]
  cases denotes with
  | zero read =>
    rw [read]
    exact iff_of_true rfl rfl
  | @finite mantissa exponent positive read =>
    rw [read]
    have some := (magnitude_pos positive exponent).ne'
    cases sign with
    | positive => simp [UnpackedFloat.compare, some]
    | negative => simp [UnpackedFloat.compare, some]

theorem not_lt_zero_of_zero_le (above : 0 ≤ value) : ¬ value < 0 := by
  have compared : UnpackedFloat.le (0 : Float).toModel.unpack value.toModel.unpack = true :=
    of_decide_eq_true above
  rw [unpack_zero, UnpackedFloat.le] at compared
  rw [lt_iff, unpack_zero]
  intro below
  cases read : value.toModel.unpack with
  | zero sign => rw [read] at below; cases below
  | notANumber => rw [read] at below; cases below
  | infinity sign =>
    cases sign with
    | positive => rw [read] at below; cases below
    | negative => rw [read] at compared; cases compared
  | finite sign mantissa exponent positive =>
    cases sign with
    | positive => rw [read] at below; cases below
    | negative => rw [read] at compared; cases compared

theorem not_abs_lt_zero : ¬ value.abs < 0 := by
  rw [lt_iff, unpack_abs, unpack_zero]
  cases value.toModel.unpack <;> simp [UnpackedFloat.abs, UnpackedFloat.compare]

theorem isFinite_of_abs_lt (less : value.abs < right) : value.isFinite = true := by
  rw [lt_iff, unpack_abs] at less
  rw [isFinite_eq]
  cases read : value.toModel.unpack with
  | zero sign => rfl
  | finite sign mantissa exponent positive => rfl
  | infinity sign =>
    rw [read, UnpackedFloat.abs] at less
    cases other : right.toModel.unpack with
    | infinity otherSign => rw [other] at less; cases otherSign <;> cases less
    | _ => rw [other] at less; cases less
  | notANumber =>
    rw [read, UnpackedFloat.abs] at less
    cases less

theorem abs_zero : (0 : Float).abs = 0 :=
  denotes_zero.abs.unique denotes_zero

private theorem Denotes.zero_lt_abs (denotes : Denotes value sign magnitude) (some : magnitude ≠ 0) :
    0 < value.abs := by
  rw [lt_iff, unpack_abs, unpack_zero]
  cases denotes with
  | zero => exact absurd rfl some
  | finite read => rw [read]; rfl

theorem abs_eq_zero_or_pos (finite : value.isFinite = true) : value.abs = 0 ∨ 0 < value.abs := by
  obtain ⟨sign, magnitude, denotes⟩ := exists_denotes finite
  rcases eq_or_ne magnitude 0 with rfl | some
  · exact .inl (denotes.abs.unique denotes_zero)
  · exact .inr (denotes.zero_lt_abs some)

/-- A result that is not rounded to zero is away from zero, also when it is infinite. -/
theorem Rounds.zero_lt_abs {unpacked : UnpackedFloat} (rounds : Rounds sign magnitude unpacked)
    (model : value.toModel = Float.Model.pack unpacked) (some : roundMagnitude magnitude ≠ 0) :
    0 < value.abs := by
  rw [lt_iff, unpack_abs, unpack_zero, model]
  cases rounds with
  | zero vanishes => exact absurd vanishes some
  | @finite mantissa exponent positive canonical =>
    rcases le_or_gt exponent 971 with range | beyond
    · rw [unpack_pack_finite sign positive canonical range]
      rfl
    · rw [unpack_pack_beyond sign positive (by omega)]
      rfl

/-! ## Subtraction -/

/-- An exact difference that is not zero is not rounded away. -/
private theorem zero_lt_abs_of_normalize {difference exponent : ℤ} {zeroSign : Sign} (some : difference ≠ 0)
    (fine : -1074 ≤ exponent) (model : value.toModel =
      Float.Model.pack (UnpackedFloat.normalize Format.binary64 difference exponent zeroSign)) :
    0 < value.abs := by
  have filled : 0 < difference.natAbs := Int.natAbs_pos.mpr some
  have kept : roundMagnitude (difference.natAbs * 2 ^ exponent) ≠ 0 := by
    have power := two_zpow_pos exponent
    have least : (2 : ℚ) ^ exponent ≤ difference.natAbs * 2 ^ exponent :=
      le_mul_of_one_le_left power.le (by exact_mod_cast filled)
    exact (lt_of_lt_of_le power (le_roundMagnitude_of_representable (lt_of_lt_of_le power least)
      (representable_two_zpow fine) least)).ne'
  unfold UnpackedFloat.normalize at model
  rcases lt_or_gt_of_ne some with below | above
  · rw [Int.compare_eq_lt.mpr below, show (-difference).toNat = difference.natAbs by omega] at model
    exact (round_rounds .negative filled exponent).zero_lt_abs model kept
  · rw [Int.compare_eq_gt.mpr above, show difference.toNat = difference.natAbs by omega] at model
    exact (round_rounds .positive filled exponent).zero_lt_abs model kept

private theorem decreaseExponent_eq (mantissa : ℕ) {exponent target : ℤ} (lower : target ≤ exponent) :
    ((decreaseExponent mantissa exponent target).1 : ℚ) * 2 ^ target = mantissa * 2 ^ exponent := by
  obtain ⟨amount, rfl⟩ := Int.le.dest lower
  rw [decreaseExponent, show (target + amount - target).toNat = amount by omega, Nat.shiftLeft_eq,
    zpow_add₀ two_ne_zero, zpow_natCast]
  push_cast
  ring

theorem sub_self_of_isFinite (finite : value.isFinite = true) : value - value = 0 := by
  have model : (value - value).toModel = Float.Model.pack (UnpackedFloat.sub Format.binary64
      value.toModel.unpack value.toModel.unpack) := rfl
  refine Denotes.unique (.zero ?_) denotes_zero
  obtain ⟨sign, read⟩ | ⟨sign, mantissa, exponent, positive, read, _⟩ := unpack_of_isFinite finite
  · rw [model, read]
    cases sign <;> rfl
  · have none : compare (0 : ℤ) 0 = .eq := Int.compare_eq_eq.mpr rfl
    rw [model, read]
    simp only [UnpackedFloat.sub, sub_self, UnpackedFloat.normalize, none]
    exact unpack_pack_zero .positive

/-- Unequal values have a distance above zero. -/
theorem Denotes.zero_lt_abs_sub (first : Denotes left .positive leftMagnitude)
    (second : Denotes right .positive rightMagnitude) (apart : left ≠ right) :
    0 < (left - right).abs := by
  have model : (left - right).toModel = Float.Model.pack (UnpackedFloat.sub Format.binary64
      left.toModel.unpack right.toModel.unpack) := rfl
  have unequal : leftMagnitude ≠ rightMagnitude := by
    rintro rfl
    exact apart (first.unique second)
  cases first with
  | zero read =>
    cases second with
    | zero => exact absurd rfl unequal
    | @finite digits place filled otherRead =>
      obtain ⟨canonical, range⟩ := unpack_canonical otherRead
      rw [read, otherRead] at model
      have denotes : Denotes (left - right) .negative (digits * 2 ^ place) :=
        .finite (by rw [model]; exact unpack_pack_finite .negative filled canonical range)
      exact denotes.zero_lt_abs (magnitude_pos filled place).ne'
  | @finite mantissa exponent positive read =>
    obtain ⟨canonical, range⟩ := unpack_canonical read
    cases second with
    | zero otherRead =>
      rw [read, otherRead] at model
      have denotes : Denotes (left - right) .positive (mantissa * 2 ^ exponent) :=
        .finite (by rw [model]; exact unpack_pack_finite .positive positive canonical range)
      exact denotes.zero_lt_abs (magnitude_pos positive exponent).ne'
    | @finite digits place filled otherRead =>
      rw [read, otherRead] at model
      have lowest : -1074 ≤ min exponent place :=
        le_min canonical.fine (unpack_canonical otherRead).1.fine
      refine zero_lt_abs_of_normalize ?_ lowest model
      intro same
      apply unequal
      rw [← decreaseExponent_eq mantissa (min_le_left exponent place),
        ← decreaseExponent_eq digits (min_le_right exponent place)]
      congr 1
      exact congrArg Nat.cast (Int.ofNat.inj (sub_eq_zero.mp same))

end LineCalc.Binary64
