import LineCalc.Proofs.Binary64.Order
import LineCalc.Proofs.Rounding.Nearest

/-!
# Rounding keeps the order and the sign

Rounding to decimal places keeps the order of all values that are numbers, the infinite ones included, it
changes its sign with the value, and it leaves no negative zero. Magnitudes whose product with the scale is in
range are all below those that overflow it, and what is left of the former stays below the latter.
-/

set_option autoImplicit false

namespace LineCalc

open Binary64
open Float.Model.UnpackedFloat (Sign)

variable {places : ℕ} {value left right : Float} {sign leftSign rightSign : Sign}
  {magnitude leftMagnitude rightMagnitude : ℚ}

/-! ## Magnitudes -/

/-- The magnitude of what rounding leaves of a value with a magnitude. -/
def finalMagnitude (places : ℕ) (value : Float) (magnitude : ℚ) : ℚ :=
  if (value * decimalScale places).isFinite then roundMagnitudeTo places magnitude else magnitude

private theorem finalMagnitude_zero : finalMagnitude places value 0 = 0 := by
  rw [finalMagnitude, roundMagnitudeTo_zero, ite_self]

private theorem finalMagnitude_nonneg (denotes : Denotes value sign magnitude) :
    0 ≤ finalMagnitude places value magnitude := by
  rw [finalMagnitude]
  split
  · exact roundMagnitude_nonneg _
  · exact denotes.nonneg

private theorem roundMagnitudeTo_mono (nonneg : 0 ≤ leftMagnitude)
    (below : leftMagnitude ≤ rightMagnitude) :
    roundMagnitudeTo places leftMagnitude ≤ roundMagnitudeTo places rightMagnitude := by
  have products : roundMagnitude (leftMagnitude * 10 ^ places) ≤
      roundMagnitude (rightMagnitude * 10 ^ places) :=
    roundMagnitude_mono (by positivity) (by gcongr)
  have integers : ⌊roundMagnitude (leftMagnitude * 10 ^ places) + 1 / 2⌋₊ ≤
      ⌊roundMagnitude (rightMagnitude * 10 ^ places) + 1 / 2⌋₊ := by
    gcongr
  exact gridPoint_mono integers

/-- A product that stays finite is no smaller than one of a smaller magnitude, which then stays finite too. -/
private theorem isFinite_mul_decimalScale_of_le (few : places ≤ 22)
    (first : Denotes left leftSign leftMagnitude)
    (second : Denotes right rightSign rightMagnitude) (below : leftMagnitude ≤ rightMagnitude)
    (scaled : (right * decimalScale places).isFinite = true) :
    (left * decimalScale places).isFinite = true := by
  have scale := denotes_decimalScale few
  apply (first.mul scale).isFinite_of_roundMagnitude_le ((second.mul scale).denotes scaled)
  have nonneg := first.nonneg
  exact roundMagnitude_mono (by positivity) (by gcongr)

/-- What is rounded is not above a magnitude that overflows the scale: the integer that is scaled back is
finite, so it is below the product that is not. -/
theorem roundMagnitudeTo_le_of_not_isFinite (few : places ≤ 22)
    (first : Denotes left leftSign leftMagnitude) (second : Denotes right rightSign rightMagnitude)
    (scaled : (left * decimalScale places).isFinite = true)
    (overflows : ¬ (right * decimalScale places).isFinite = true) :
    roundMagnitudeTo places leftMagnitude ≤ rightMagnitude := by
  have scale := denotes_decimalScale few
  obtain ⟨_, integer, _⟩ := denotes_nearestInteger ((first.mul scale).denotes scaled)
  have less : (⌊roundMagnitude (leftMagnitude * 10 ^ places) + 1 / 2⌋₊ : ℚ) ≤
      rightMagnitude * 10 ^ places := by
    by_contra above
    exact overflows ((second.mul scale).denotes_of_le integer (not_le.mp above).le).isFinite
  apply roundMagnitude_le_of_representable (by positivity) second.representable
  rwa [div_le_iff₀ (by positivity)]

private theorem finalMagnitude_mono (few : places ≤ 22) (first : Denotes left leftSign leftMagnitude)
    (second : Denotes right rightSign rightMagnitude) (below : leftMagnitude ≤ rightMagnitude) :
    finalMagnitude places left leftMagnitude ≤ finalMagnitude places right rightMagnitude := by
  rw [finalMagnitude, finalMagnitude]
  split
  · rename_i scaled
    split
    · exact roundMagnitudeTo_mono first.nonneg below
    · rename_i overflows
      exact roundMagnitudeTo_le_of_not_isFinite few first second scaled overflows
  · rename_i overflows
    split
    · rename_i scaled
      exact absurd (isFinite_mul_decimalScale_of_le few first second below scaled) overflows
    · exact below

/-! ## Values -/

/-- What rounding leaves of a finite value has the sign of the value, if it is not zero. -/
theorem level?_roundTo (few : places ≤ 22) (denotes : Denotes value sign magnitude) :
    level? (roundTo places value) = some ↑(signed sign (finalMagnitude places value magnitude)) := by
  rw [finalMagnitude]
  split
  · rename_i scaled
    rcases denotes_roundTo few denotes scaled with ⟨none, vanishes⟩ | ⟨_, rounded⟩
    · rw [none, vanishes, signed_zero, denotes_zero.level?_eq, signed_zero]
    · exact rounded.level?_eq
  · rename_i overflows
    rw [roundTo_of_not_isFinite overflows]
    exact denotes.level?_eq

private theorem signed_finalMagnitude_mono (few : places ≤ 22) (first : Denotes left leftSign leftMagnitude)
    (second : Denotes right rightSign rightMagnitude)
    (below : signed leftSign leftMagnitude ≤ signed rightSign rightMagnitude) :
    signed leftSign (finalMagnitude places left leftMagnitude) ≤
      signed rightSign (finalMagnitude places right rightMagnitude) := by
  have leftNonneg : 0 ≤ finalMagnitude places left leftMagnitude := finalMagnitude_nonneg first
  have rightNonneg : 0 ≤ finalMagnitude places right rightMagnitude := finalMagnitude_nonneg second
  cases leftSign with
  | positive =>
    cases rightSign with
    | positive => exact finalMagnitude_mono few first second below
    | negative =>
      have leftFloor := first.nonneg
      have rightFloor := second.nonneg
      simp only [signed] at below
      obtain rfl : leftMagnitude = 0 := by linarith
      obtain rfl : rightMagnitude = 0 := by linarith
      rw [finalMagnitude_zero, finalMagnitude_zero, signed, signed, neg_zero]
  | negative =>
    cases rightSign with
    | positive =>
      simp only [signed]
      linarith
    | negative => exact neg_le_neg (finalMagnitude_mono few second first (neg_le_neg_iff.mp below))

theorem roundTo_le_roundTo (few : places ≤ 22) (below : left ≤ right) :
    roundTo places left ≤ roundTo places right := by
  rw [le_iff_level] at below ⊢
  obtain ⟨lower, upper, leftLevel, rightLevel, below⟩ := below
  rcases denotes_or_infinite leftLevel with ⟨_, _, first, rfl⟩ | ⟨leftInfinite, extreme⟩
  · rcases denotes_or_infinite rightLevel with ⟨_, _, second, rfl⟩ | ⟨rightInfinite, rfl | rfl⟩
    · have kept := signed_finalMagnitude_mono few first second (WithBotTop.coe_le_coe.mp below)
      exact ⟨_, _, level?_roundTo few first, level?_roundTo few second, WithBotTop.coe_le_coe.mpr kept⟩
    · exact absurd (le_bot_iff.mp below) (WithBotTop.coe_ne_bot _)
    · rw [roundTo_of_infinite rightInfinite]
      exact ⟨_, _, level?_roundTo few first, rightLevel, le_top⟩
  · rw [roundTo_of_infinite leftInfinite]
    rcases denotes_or_infinite rightLevel with ⟨_, _, second, rfl⟩ | ⟨rightInfinite, _⟩
    · rcases extreme with rfl | rfl
      · exact ⟨_, _, leftLevel, level?_roundTo few second, bot_le⟩
      · exact absurd (top_le_iff.mp below) (WithBotTop.coe_ne_top _)
    · rw [roundTo_of_infinite rightInfinite]
      exact ⟨_, _, leftLevel, rightLevel, below⟩

/-- The magnitude that is left does not depend on the sign. -/
theorem finalMagnitude_neg (few : places ≤ 22) (denotes : Denotes value sign magnitude) :
    finalMagnitude places (-value) magnitude = finalMagnitude places value magnitude :=
  le_antisymm (finalMagnitude_mono few denotes.neg denotes (le_refl _))
    (finalMagnitude_mono few denotes denotes.neg (le_refl _))

theorem roundTo_neg_beq (few : places ≤ 22) (number : ¬ value.isNaN = true) :
    (roundTo places (-value) == -roundTo places value) = true := by
  by_cases finite : value.isFinite = true
  · obtain ⟨sign, magnitude, denotes⟩ := exists_denotes finite
    have opposite := level?_roundTo few denotes.neg
    rw [finalMagnitude_neg few denotes, signed_neg] at opposite
    exact beq_iff_level.mpr ⟨_, opposite, level?_neg (level?_roundTo few denotes)⟩
  · have infinite : ¬ (-value).isFinite = true := by rwa [isFinite_neg]
    rw [roundTo_of_infinite finite, roundTo_of_infinite infinite]
    exact beq_self (by rwa [isNaN_neg])

theorem roundTo_ne_neg_zero (few : places ≤ 22) (value : Float) : roundTo places value ≠ -0 := by
  intro same
  have negative : Denotes (-0) .negative 0 := denotes_zero.neg
  have finite : value.isFinite = true := by rw [← isFinite_roundTo few, same, negative.isFinite]
  obtain ⟨sign, magnitude, rounded, _, filled⟩ := exists_denotes_roundTo few finite
  rw [same] at rounded
  obtain ⟨rfl, rfl⟩ := rounded.eq negative
  exact filled rfl rfl

/-- Rounding to decimal places keeps the order of the numbers and of the infinities, it gives opposite numbers
for opposite values, and it never leaves a negative zero. -/
theorem roundTo_order_and_sign (few : places ≤ 22) :
    (∀ left right : Float, left ≤ right → roundTo places left ≤ roundTo places right) ∧
      (∀ value : Float, ¬ value.isNaN = true →
        (roundTo places (-value) == -roundTo places value) = true) ∧
      ∀ value : Float, roundTo places value ≠ -0 :=
  ⟨fun _ _ => roundTo_le_roundTo few, fun _ => roundTo_neg_beq few, roundTo_ne_neg_zero few⟩

/-- The law from the largest value that does not overflow the scale to the next one, which does, for the opposite
of the latter, and for a value that vanishes. -/
theorem roundTo_order_and_sign_at_overflow :
    roundTo 2 1.7976931348623156e306 ≤ roundTo 2 1.797693134862316e306 ∧
      ((1.7976931348623156e306 : Float) * decimalScale 2).isFinite = true ∧
      ((1.797693134862316e306 : Float) * decimalScale 2).isFinite = false ∧
      (roundTo 2 (-1.797693134862316e306) == -roundTo 2 1.797693134862316e306) = true ∧
      roundTo 2 (-0.001) ≠ -0 := by
  have few : 2 ≤ 22 := by decide
  obtain ⟨mono, odd, nonzero⟩ := roundTo_order_and_sign few
  exact ⟨mono _ _ (by decide +kernel), by decide +kernel, by decide +kernel, odd _ (by decide +kernel),
    nonzero _⟩

end LineCalc
