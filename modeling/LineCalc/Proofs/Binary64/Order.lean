import LineCalc.Proofs.Binary64.Difference

/-!
# The order of binary64 values

A value that is a number has a level, its exact number or one of two infinities, and the comparison of two
values is that of their levels. What is not a number has no level and is below nothing, so the order is total
only on the values that are numbers, up to the sign of zero.
-/

set_option autoImplicit false

namespace LineCalc.Binary64

open Float.Model Float.Model.UnpackedFloat

/-- The number with a sign and a magnitude. -/
def signed (sign : Sign) (magnitude : ℚ) : ℚ :=
  match sign with
  | .positive => magnitude
  | .negative => -magnitude

theorem signed_zero (sign : Sign) : signed sign 0 = 0 := by
  cases sign with
  | positive => rfl
  | negative => exact neg_zero

theorem signed_neg (sign : Sign) (magnitude : ℚ) : signed (-sign) magnitude = -signed sign magnitude := by
  cases sign with
  | positive => rfl
  | negative => exact (neg_neg magnitude).symm

/-- The place of what is read among the numbers and the infinities. -/
def levelOf? : UnpackedFloat → Option (WithBotTop ℚ)
  | .zero _ => some (0 : ℚ)
  | .finite sign mantissa exponent _ => some (signed sign (mantissa * 2 ^ exponent))
  | .infinity .positive => some ⊤
  | .infinity .negative => some ⊥
  | .notANumber => none

def level? (value : Float) : Option (WithBotTop ℚ) :=
  levelOf? value.toModel.unpack

variable {value left middle right : Float}

theorem Denotes.level?_eq {sign : Sign} {magnitude : ℚ} (denotes : Denotes value sign magnitude) :
    level? value = some ↑(signed sign magnitude) := by
  cases denotes with
  | zero read => rw [level?, read, levelOf?, signed_zero]
  | finite read => rw [level?, read, levelOf?]

/-- A number is finite and denotes its level, or it is one of the two infinities. -/
theorem denotes_or_infinite {level : WithBotTop ℚ} (read : level? value = some level) :
    (∃ sign magnitude, Denotes value sign magnitude ∧ level = ↑(signed sign magnitude)) ∨
      ¬ value.isFinite = true ∧ (level = ⊥ ∨ level = ⊤) := by
  by_cases finite : value.isFinite = true
  · obtain ⟨sign, magnitude, denotes⟩ := exists_denotes finite
    exact .inl ⟨sign, magnitude, denotes, Option.some_inj.mp (read.symm.trans denotes.level?_eq)⟩
  · refine .inr ⟨finite, ?_⟩
    rw [isFinite_eq] at finite
    rw [level?] at read
    cases unpacked : value.toModel.unpack with
    | infinity sign =>
      rw [unpacked] at read
      cases sign with
      | positive => exact .inr (Option.some_inj.mp read.symm)
      | negative => exact .inl (Option.some_inj.mp read.symm)
    | notANumber =>
      rw [unpacked] at read
      cases read
    | _ =>
      rw [unpacked] at finite
      exact absurd rfl finite

/-- A finite level changes its sign with the value. -/
theorem level?_neg {number : ℚ} (read : level? value = some ↑number) :
    level? (-value) = some ↑(-number) := by
  rcases denotes_or_infinite read with ⟨sign, magnitude, denotes, same⟩ | ⟨_, least | most⟩
  · rw [denotes.neg.level?_eq, signed_neg, WithBotTop.coe_injective same]
  · exact absurd least (WithBotTop.coe_ne_bot number)
  · exact absurd most (WithBotTop.coe_ne_top number)

theorem isFinite_neg (value : Float) : (-value).isFinite = value.isFinite := by
  rw [isFinite_eq, isFinite_eq, unpack_neg]
  cases value.toModel.unpack <;> rfl

theorem isNaN_neg (value : Float) : (-value).isNaN = value.isNaN := by
  change (-value).toModel.unpack.isNaN = value.toModel.unpack.isNaN
  rw [unpack_neg]
  cases value.toModel.unpack <;> rfl

/-- A canonical magnitude is compared by its exponent first. -/
theorem Canonical.lt_iff {leftMantissa rightMantissa : ℕ} {leftExponent rightExponent : ℤ}
    (leftPositive : 0 < leftMantissa) (leftCanonical : Canonical leftMantissa leftExponent)
    (rightPositive : 0 < rightMantissa) (rightCanonical : Canonical rightMantissa rightExponent) :
    (leftMantissa : ℚ) * 2 ^ leftExponent < rightMantissa * 2 ^ rightExponent ↔
      leftExponent < rightExponent ∨ leftExponent = rightExponent ∧ leftMantissa < rightMantissa := by
  have places (below : (leftMantissa : ℚ) * 2 ^ leftExponent ≤ rightMantissa * 2 ^ rightExponent) :
      leftExponent ≤ rightExponent := by
    have order := placeOf_mono (magnitude_pos leftPositive leftExponent) below
    rwa [leftCanonical.placeOf_eq leftPositive, rightCanonical.placeOf_eq rightPositive] at order
  have reversed (above : (rightMantissa : ℚ) * 2 ^ rightExponent ≤ leftMantissa * 2 ^ leftExponent) :
      rightExponent ≤ leftExponent := by
    have order := placeOf_mono (magnitude_pos rightPositive rightExponent) above
    rwa [leftCanonical.placeOf_eq leftPositive, rightCanonical.placeOf_eq rightPositive] at order
  rcases lt_trichotomy leftExponent rightExponent with less | rfl | more
  · refine iff_of_true (lt_of_not_ge fun above => ?_) (.inl less)
    exact absurd (reversed above) (not_le.mpr less)
  · rw [mul_lt_mul_iff_left₀ (two_zpow_pos leftExponent), Nat.cast_lt]
    simp
  · refine iff_of_false (fun below => ?_) (by omega)
    exact absurd (places below.le) (not_le.mpr more)

theorem compare_finite_eq_lt_iff {leftSign rightSign : Sign} {leftMantissa rightMantissa : ℕ}
    {leftExponent rightExponent : ℤ} {leftPositive : 0 < leftMantissa} {rightPositive : 0 < rightMantissa}
    (leftCanonical : Canonical leftMantissa leftExponent)
    (rightCanonical : Canonical rightMantissa rightExponent) :
    UnpackedFloat.compare (.finite leftSign leftMantissa leftExponent leftPositive)
        (.finite rightSign rightMantissa rightExponent rightPositive) = some .lt ↔
      signed leftSign (leftMantissa * 2 ^ leftExponent) <
        signed rightSign (rightMantissa * 2 ^ rightExponent) := by
  have below := magnitude_pos leftPositive leftExponent
  have above := magnitude_pos rightPositive rightExponent
  cases leftSign with
  | positive =>
    cases rightSign with
    | positive =>
      rw [signed, signed, leftCanonical.lt_iff leftPositive rightPositive rightCanonical]
      simp only [UnpackedFloat.compare, Option.some.injEq, Ordering.then_eq_lt, Int.compare_eq_lt,
        Int.compare_eq_eq, Nat.compare_eq_lt]
    | negative =>
      refine iff_of_false (fun same => ?_) ?_
      · cases same
      · simp only [signed]
        linarith
  | negative =>
    cases rightSign with
    | positive =>
      refine iff_of_true rfl ?_
      simp only [signed]
      linarith
    | negative =>
      rw [signed, signed, neg_lt_neg_iff, rightCanonical.lt_iff rightPositive leftPositive leftCanonical]
      simp only [UnpackedFloat.compare, Option.some.injEq, Ordering.swap_eq_lt, Ordering.then_eq_gt,
        Int.compare_eq_gt, Int.compare_eq_eq, Nat.compare_eq_gt, eq_comm (a := leftExponent)]

theorem lt_iff_level : left < right ↔
    ∃ below above, level? left = some below ∧ level? right = some above ∧ below < above := by
  rw [lt_iff, level?, level?]
  cases leftRead : left.toModel.unpack with
  | notANumber => simp [UnpackedFloat.compare, levelOf?]
  | infinity leftSign =>
    cases rightRead : right.toModel.unpack with
    | notANumber => simp [UnpackedFloat.compare, levelOf?]
    | infinity rightSign =>
      have signs : compare Sign.negative Sign.positive = .lt := rfl
      cases leftSign <;> cases rightSign <;> simp [UnpackedFloat.compare, levelOf?, signs]
    | zero => cases leftSign <;> simp [UnpackedFloat.compare, levelOf?, bot_lt_iff_ne_bot]
    | finite => cases leftSign <;> simp [UnpackedFloat.compare, levelOf?, bot_lt_iff_ne_bot]
  | zero leftSign =>
    cases rightRead : right.toModel.unpack with
    | notANumber => simp [UnpackedFloat.compare, levelOf?]
    | infinity rightSign =>
      cases rightSign <;> simp [UnpackedFloat.compare, levelOf?, lt_top_iff_ne_top]
    | zero => simp [UnpackedFloat.compare, levelOf?]
    | finite rightSign digits place filled =>
      have some := magnitude_pos filled place
      cases rightSign <;>
        simp [UnpackedFloat.compare, levelOf?, signed, WithBotTop.coe_strictMono.lt_iff_lt, some, some.le]
  | finite leftSign mantissa exponent positive =>
    cases rightRead : right.toModel.unpack with
    | notANumber => simp [UnpackedFloat.compare, levelOf?]
    | infinity rightSign =>
      cases rightSign <;> simp [UnpackedFloat.compare, levelOf?, lt_top_iff_ne_top]
    | zero rightSign =>
      have some := magnitude_pos positive exponent
      cases leftSign <;>
        simp [UnpackedFloat.compare, levelOf?, signed, WithBotTop.coe_strictMono.lt_iff_lt, some, some.le]
    | finite rightSign digits place filled =>
      rw [compare_finite_eq_lt_iff (unpack_canonical leftRead).1 (unpack_canonical rightRead).1]
      simp [levelOf?, WithBotTop.coe_strictMono.lt_iff_lt]

/-! ## Values that are not above -/

/-- Comparing the other way round gives the opposite order. -/
private theorem map_swap_compare (first second : UnpackedFloat) :
    (first.compare second).map Ordering.swap = second.compare first := by
  cases first with
  | notANumber => cases second <;> rfl
  | infinity firstSign =>
    cases second with
    | infinity secondSign => cases firstSign <;> cases secondSign <;> rfl
    | _ => cases firstSign <;> rfl
  | zero firstSign =>
    cases second with
    | notANumber => rfl
    | zero => rfl
    | infinity secondSign => cases secondSign <;> rfl
    | finite secondSign => cases secondSign <;> rfl
  | finite firstSign mantissa exponent positive =>
    cases second with
    | notANumber => rfl
    | zero => cases firstSign <;> rfl
    | infinity secondSign => cases firstSign <;> cases secondSign <;> rfl
    | finite secondSign digits place filled =>
      cases firstSign <;> cases secondSign <;>
        simp [UnpackedFloat.compare, Ordering.swap_then, Int.compare_swap, Nat.compare_swap]

/-- Only what is not a number cannot be compared. -/
theorem compare_eq_none_iff {first second : UnpackedFloat} :
    first.compare second = none ↔ levelOf? first = none ∨ levelOf? second = none := by
  cases first with
  | notANumber => cases second <;> simp [UnpackedFloat.compare, levelOf?]
  | infinity firstSign =>
    cases second with
    | infinity secondSign =>
      cases firstSign <;> cases secondSign <;> simp [UnpackedFloat.compare, levelOf?]
    | _ => cases firstSign <;> simp [UnpackedFloat.compare, levelOf?]
  | zero firstSign =>
    cases second with
    | infinity secondSign => cases secondSign <;> simp [UnpackedFloat.compare, levelOf?]
    | finite secondSign => cases secondSign <;> simp [UnpackedFloat.compare, levelOf?]
    | _ => simp [UnpackedFloat.compare, levelOf?]
  | finite firstSign mantissa exponent positive =>
    cases second with
    | notANumber => simp [UnpackedFloat.compare, levelOf?]
    | zero => cases firstSign <;> simp [UnpackedFloat.compare, levelOf?]
    | _ secondSign =>
      cases firstSign <;> cases secondSign <;> simp [UnpackedFloat.compare, levelOf?]

/-- What is compared is below or equal when it is not above. -/
theorem le_iff : left ≤ right ↔
    left.toModel.unpack.compare right.toModel.unpack ≠ none ∧ ¬ right < left := by
  have model : left ≤ right ↔ UnpackedFloat.le left.toModel.unpack right.toModel.unpack = true :=
    decide_eq_true_iff
  rw [model, UnpackedFloat.le, lt_iff, ← map_swap_compare left.toModel.unpack]
  cases left.toModel.unpack.compare right.toModel.unpack with
  | none => simp
  | some order => cases order <;> simp

theorem le_iff_level : left ≤ right ↔
    ∃ below above, level? left = some below ∧ level? right = some above ∧ below ≤ above := by
  rw [le_iff, lt_iff_level, ne_eq, compare_eq_none_iff, not_or, ← level?, ← level?]
  cases level? left with
  | none => simp
  | some below =>
    cases level? right with
    | none => simp
    | some above => simp

theorem beq_iff_le : (left == right) = true ↔ left ≤ right ∧ right ≤ left := by
  have model : (left == right) = UnpackedFloat.beq left.toModel.unpack right.toModel.unpack := rfl
  rw [model, UnpackedFloat.beq, beq_iff_eq, le_iff, le_iff, lt_iff, lt_iff,
    ← map_swap_compare left.toModel.unpack]
  cases left.toModel.unpack.compare right.toModel.unpack with
  | none => simp
  | some order => cases order <;> simp

/-- Values of one level are numerically equal, also two zeros. -/
theorem beq_iff_level : (left == right) = true ↔
    ∃ level, level? left = some level ∧ level? right = some level := by
  rw [beq_iff_le, le_iff_level, le_iff_level]
  cases level? left with
  | none => simp
  | some below =>
    cases level? right with
    | none => simp
    | some above => simp [eq_comm (a := above), ← le_antisymm_iff]

/-! ## Laws of the order -/

theorem not_lt_self (value : Float) : ¬ value < value := by
  rw [lt_iff_level]
  rintro ⟨below, above, read, again, less⟩
  rw [read] at again
  cases again
  exact lt_irrefl below less

theorem lt_of_lt_of_lt (first : left < middle) (second : middle < right) : left < right := by
  rw [lt_iff_level] at first second ⊢
  obtain ⟨below, between, leftLevel, middleLevel, less⟩ := first
  obtain ⟨bound, above, again, rightLevel, greater⟩ := second
  rw [middleLevel] at again
  cases again
  exact ⟨below, above, leftLevel, rightLevel, less.trans greater⟩

theorem isNaN_iff_level : value.isNaN = true ↔ level? value = none := by
  change value.toModel.unpack.isNaN = true ↔ levelOf? value.toModel.unpack = none
  cases value.toModel.unpack with
  | notANumber => exact iff_of_true rfl rfl
  | zero => exact iff_of_false nofun nofun
  | finite => exact iff_of_false nofun nofun
  | infinity sign => cases sign <;> exact iff_of_false nofun nofun

private theorem exists_level? (number : ¬ value.isNaN = true) : ∃ level, level? value = some level :=
  Option.ne_none_iff_exists'.mp (mt isNaN_iff_level.mpr number)

theorem beq_self (number : ¬ value.isNaN = true) : (value == value) = true := by
  obtain ⟨level, read⟩ := exists_level? number
  exact beq_iff_level.mpr ⟨level, read, read⟩

/-- What is above another value is a number. -/
theorem not_isNaN_of_lt (above : left < right) : ¬ right.isNaN = true := by
  obtain ⟨_, level, _, read, _⟩ := lt_iff_level.mp above
  rw [isNaN_iff_level, read]
  exact nofun

/-- What is not below a bound is above everything that is, if it is a number. -/
theorem lt_or_isNaN (below : left < middle) (standing : ¬ right < middle) :
    left < right ∨ right.isNaN = true := by
  cases rightLevel : level? right with
  | none => exact .inr (isNaN_iff_level.mpr rightLevel)
  | some above =>
    rw [lt_iff_level] at below standing ⊢
    obtain ⟨least, bound, leftLevel, middleLevel, less⟩ := below
    have reached : bound ≤ above :=
      not_lt.mp fun lower => standing ⟨above, bound, rightLevel, middleLevel, lower⟩
    exact .inl ⟨least, above, leftLevel, rightLevel, lt_of_lt_of_le less reached⟩

end LineCalc.Binary64
