import LineCalc.Decimal.Basic
import LineCalc.Proofs.Rounding.Nearest

/-!
# The value of a decimal

The value of a decimal is the rounding of the number that it stands for, whatever its digits and its places.
So two decimals on the same side of a value, of which the farther one is rounded to it, are both rounded to it.
-/

set_option autoImplicit false

namespace LineCalc.Decimal

open Binary64
open Float.Model (UnpackedFloat Format)
open Float.Model.UnpackedFloat (Sign)

/-- The number that a decimal stands for. -/
def number (decimal : Decimal) : ℚ :=
  decimal.mantissa / 10 ^ decimal.places

private theorem number_nonneg (decimal : Decimal) : 0 ≤ decimal.number :=
  div_nonneg (Nat.cast_nonneg _) (by positivity)

/-! ## Reading is correctly rounded -/

private theorem denotes_powerOfTen {places : ℕ}
    (few : places < Float.exactlyRepresentablePowersOfTen.size) :
    Denotes Float.exactlyRepresentablePowersOfTen[places] .positive (10 ^ places) := by
  have each : ∀ (places : ℕ) (few : places < Float.exactlyRepresentablePowersOfTen.size),
      Float.exactlyRepresentablePowersOfTen[places] = decimalScale places := by decide +kernel
  rw [each places few]
  exact denotes_decimalScale (Nat.le_of_lt_succ few)

private theorem number_lt_of_many_places {mantissa places : ℕ} (many : 2048 + mantissa.log2 < places) :
    (mantissa : ℚ) / 10 ^ places < 2 ^ (-1075 : ℤ) := by
  have digits : (mantissa : ℚ) < 2 ^ (mantissa.log2 + 1) := by
    exact_mod_cast Nat.lt_log2_self (n := mantissa)
  have scale : (2 : ℚ) ^ places ≤ 10 ^ places := by gcongr; norm_num
  rw [div_lt_iff₀ (by positivity)]
  calc (mantissa : ℚ) < 2 ^ (mantissa.log2 + 1) := digits
    _ ≤ 2 ^ (-1075 : ℤ) * 2 ^ places := by
        rw [← zpow_natCast, ← zpow_natCast, ← zpow_add₀ two_ne_zero]
        exact zpow_le_zpow_right₀ one_le_two (by omega)
    _ ≤ 2 ^ (-1075 : ℤ) * 10 ^ places := by gcongr

private theorem ofScientific_rounds_of_places {mantissa places : ℕ} (positive : 0 < mantissa)
    (some : 0 < places) :
    Rounds .positive (mantissa / 10 ^ places)
      (UnpackedFloat.ofScientific Format.binary64 mantissa (Int.negOfNat places)) := by
  have fields : (2 : ℤ) ^ Format.binary64.exponentBits = 2048 := rfl
  have exponent : Int.negOfNat places = -places := by
    cases places <;> rfl
  rw [UnpackedFloat.ofScientific, dif_neg positive.ne', fields, exponent, if_neg (by omega)]
  split
  · rename_i many
    apply Rounds.zero
    apply roundMagnitude_eq_zero _ (by positivity)
    exact number_lt_of_many_places (by omega)
  · rw [if_neg (by omega)]
    have power : (- -(places : ℤ)).toNat = places := by omega
    have sign : (Sign.positive / Sign.positive : Sign) = .positive := rfl
    have scale : 0 < 10 ^ places := Nat.pow_pos (by decide)
    have quotient := @div_rounds .positive .positive mantissa (10 ^ places) 0 0 positive scale
    simp only [sign, zpow_zero, mul_one, Nat.cast_pow, Nat.cast_ofNat] at quotient
    simp only [power]
    exact quotient

/-- The value of a decimal is the rounding of its number. -/
theorem rounded_toFloat (decimal : Decimal) : Rounded decimal.toFloat .positive decimal.number := by
  obtain ⟨mantissa, places⟩ := decimal
  simp only [toFloat, number]
  rcases Nat.eq_zero_or_pos places with rfl | some
  · rw [pow_zero, div_one]
    exact rounded_ofScientific mantissa true
  · by_cases fast : mantissa < 2 ^ 53 ∧ places ≤ 22
    · rw [Float.ofScientific, dif_pos fast]
      exact (denotes_toFloat fast.1).div (denotes_powerOfTen (Nat.lt_succ_of_le fast.2)) (by positivity)
    · rw [Float.ofScientific, dif_neg fast]
      rcases Nat.eq_zero_or_pos mantissa with rfl | positive
      · rw [Nat.cast_zero, zero_div]
        exact .zero (unpack_pack_zero .positive)
      · exact .packed (by positivity) (ofScientific_rounds_of_places positive some) rfl

/-! ## Decimals that read back -/

variable {value : Float} {sign : Sign} {magnitude : ℚ}

theorem toFloat_eq_iff (denotes : Denotes value .positive magnitude) (decimal : Decimal) :
    decimal.toFloat = value ↔ roundMagnitude decimal.number = magnitude := by
  have rounded := rounded_toFloat decimal
  constructor
  · intro same
    have read := rounded.denotes (same ▸ denotes.isFinite)
    rw [same] at read
    exact (read.eq denotes).2
  · rintro rfl
    exact (rounded.denotes_of_roundMagnitude denotes).unique denotes

theorem toFloat_of_number_eq (denotes : Denotes value .positive magnitude) {decimal : Decimal}
    (exact : decimal.number = magnitude) : decimal.toFloat = value := by
  rw [toFloat_eq_iff denotes, exact]
  exact denotes.representable.roundMagnitude_eq denotes.nonneg

theorem toFloat_ne_of_number_eq_zero (denotes : Denotes value .positive magnitude) (some : magnitude ≠ 0)
    {decimal : Decimal} (vanishes : decimal.number = 0) : decimal.toFloat ≠ value := by
  intro reads
  rw [toFloat_eq_iff denotes, vanishes, roundMagnitude_zero] at reads
  exact some reads.symm

theorem toFloat_ne_of_two_mul_le (denotes : Denotes value .positive magnitude) (some : magnitude ≠ 0)
    {decimal : Decimal} (large : 2 * magnitude ≤ decimal.number) : decimal.toFloat ≠ value := by
  intro reads
  rw [toFloat_eq_iff denotes] at reads
  have positive : 0 < magnitude := denotes.nonneg.lt_of_ne' some
  have kept := le_roundMagnitude_of_representable (by linarith) denotes.representable.two_mul large
  linarith

/-- A decimal between a value and a decimal that reads back as it reads back too. -/
theorem toFloat_of_between (denotes : Denotes value .positive magnitude) {near far : Decimal}
    (reads : far.toFloat = value)
    (between : far.number ≤ near.number ∧ near.number ≤ magnitude ∨
      magnitude ≤ near.number ∧ near.number ≤ far.number) : near.toFloat = value := by
  have same := denotes.representable.roundMagnitude_eq denotes.nonneg
  rw [toFloat_eq_iff denotes] at reads ⊢
  rcases between with ⟨above, below⟩ | ⟨above, below⟩
  · apply le_antisymm
    · rw [← same]
      exact roundMagnitude_mono near.number_nonneg below
    · rw [← reads]
      exact roundMagnitude_mono far.number_nonneg above
  · apply le_antisymm
    · rw [← reads]
      exact roundMagnitude_mono near.number_nonneg below
    · rw [← same]
      exact roundMagnitude_mono denotes.nonneg above

end LineCalc.Decimal
