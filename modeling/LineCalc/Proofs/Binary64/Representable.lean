import LineCalc.Proofs.Binary64.Rounding

/-!
# Magnitudes that need no rounding

A magnitude of at most fifty-three digits whose last one is in range is its own rounding. Rounding keeps
the order with respect to such magnitudes, and it errs by no more than half of the last place.
-/

set_option autoImplicit false

namespace LineCalc.Binary64

/-- A magnitude with at most fifty-three digits, the last of them in range, and no bound above. -/
def Representable (magnitude : ℚ) : Prop :=
  ∃ (mantissa : ℕ) (exponent : ℤ),
    mantissa < 2 ^ 53 ∧ -1074 ≤ exponent ∧ magnitude = mantissa * 2 ^ exponent

theorem Canonical.representable {mantissa : ℕ} {exponent : ℤ} (canonical : Canonical mantissa exponent) :
    Representable (mantissa * 2 ^ exponent) :=
  ⟨mantissa, exponent, canonical.small, canonical.fine, rfl⟩

theorem representable_natCast {integer : ℕ} (small : integer < 2 ^ 53) : Representable integer :=
  ⟨integer, 0, small, by decide, by rw [zpow_zero, mul_one]⟩

theorem representable_two_zpow {exponent : ℤ} (fine : -1074 ≤ exponent) :
    Representable (2 ^ exponent) :=
  ⟨1, exponent, by decide, fine, by rw [Nat.cast_one, one_mul]⟩

theorem Representable.two_mul {magnitude : ℚ} (representable : Representable magnitude) :
    Representable (2 * magnitude) := by
  obtain ⟨mantissa, exponent, small, fine, rfl⟩ := representable
  refine ⟨mantissa, exponent + 1, small, by omega, ?_⟩
  rw [zpow_add_one₀ two_ne_zero]
  ring

theorem Canonical.placeOf_eq {mantissa : ℕ} {exponent : ℤ} (positive : 0 < mantissa)
    (canonical : Canonical mantissa exponent) : placeOf (mantissa * 2 ^ exponent) = exponent := by
  have digits : mantissa.log2 < 53 := (Nat.log2_lt positive.ne').mpr canonical.small
  have lowest := canonical.fine
  rw [placeOf, log_mul_two_zpow positive (le_refl _) (lt_add_one _)]
  rcases canonical.full with full | smallest
  · have most : 52 ≤ mantissa.log2 := (Nat.le_log2 positive.ne').mpr full
    omega
  · omega

/-- A magnitude is canonical in one way. -/
theorem Canonical.unique {left right : ℕ} {leftExponent rightExponent : ℤ} (leftPositive : 0 < left)
    (rightPositive : 0 < right) (leftCanonical : Canonical left leftExponent)
    (rightCanonical : Canonical right rightExponent)
    (same : (left : ℚ) * 2 ^ leftExponent = right * 2 ^ rightExponent) :
    left = right ∧ leftExponent = rightExponent := by
  have exponents : leftExponent = rightExponent := by
    rw [← leftCanonical.placeOf_eq leftPositive, same, rightCanonical.placeOf_eq rightPositive]
  rw [exponents] at same
  have mantissas := mul_right_cancel₀ (two_zpow_pos rightExponent).ne' same
  exact ⟨Nat.cast_injective mantissas, exponents⟩

/-! ## Order -/

theorem roundMagnitude_zero : roundMagnitude 0 = 0 := by
  rw [roundMagnitude, zero_div]
  have none : nearestEven 0 = 0 := Nat.le_zero.mp (nearestEven_le (by rw [Nat.cast_zero]))
  rw [none, Nat.cast_zero, zero_mul]

theorem roundMagnitude_nonneg (magnitude : ℚ) : 0 ≤ roundMagnitude magnitude :=
  mul_nonneg (Nat.cast_nonneg _) (two_zpow_pos _).le

theorem roundMagnitude_le_of_representable {magnitude bound : ℚ} (nonneg : 0 ≤ magnitude)
    (representable : Representable bound) (below : magnitude ≤ bound) :
    roundMagnitude magnitude ≤ bound := by
  obtain ⟨mantissa, exponent, small, fine, rfl⟩ := representable
  rcases nonneg.eq_or_lt with rfl | positive
  · rw [roundMagnitude_zero]
    exact below
  · exact roundMagnitude_le positive small fine below

/-- A magnitude above a representable one is not rounded below it. -/
theorem le_roundMagnitude_of_representable {magnitude bound : ℚ} (positive : 0 < magnitude)
    (representable : Representable bound) (above : bound ≤ magnitude) :
    bound ≤ roundMagnitude magnitude := by
  obtain ⟨mantissa, exponent, small, fine, rfl⟩ := representable
  unfold roundMagnitude
  rcases le_or_gt (placeOf magnitude) exponent with place | place
  · obtain ⟨amount, rfl⟩ := Int.le.dest place
    generalize placeOf magnitude = place at above
    rw [zpow_add₀ two_ne_zero, zpow_natCast, mul_left_comm] at above ⊢
    have digits : mantissa * 2 ^ amount ≤ nearestEven (magnitude / 2 ^ place) := by
      apply le_nearestEven
      rw [le_div_iff₀ (two_zpow_pos place)]
      push_cast
      linarith
    have kept : ((mantissa * 2 ^ amount : ℕ) : ℚ) ≤ nearestEven (magnitude / 2 ^ place) :=
      Nat.cast_le.mpr digits
    have scaled := mul_le_mul_of_nonneg_right kept (two_zpow_pos place).le
    push_cast at scaled
    linarith
  · have full := (nearestEven_place_le positive).2.resolve_right (by omega)
    have next : (2 : ℚ) ^ (53 : ℤ) * 2 ^ exponent ≤ 2 ^ (52 : ℤ) * 2 ^ placeOf magnitude := by
      rw [← zpow_add₀ two_ne_zero, ← zpow_add₀ two_ne_zero]
      exact zpow_le_zpow_right₀ one_le_two (by omega)
    calc (mantissa : ℚ) * 2 ^ exponent ≤ 2 ^ (53 : ℤ) * 2 ^ exponent := by
          apply mul_le_mul_of_nonneg_right _ (two_zpow_pos exponent).le
          exact_mod_cast small.le
      _ ≤ 2 ^ (52 : ℤ) * 2 ^ placeOf magnitude := next
      _ ≤ _ := by
          apply mul_le_mul_of_nonneg_right _ (two_zpow_pos _).le
          exact_mod_cast full

theorem Representable.roundMagnitude_eq {magnitude : ℚ} (representable : Representable magnitude)
    (nonneg : 0 ≤ magnitude) : roundMagnitude magnitude = magnitude := by
  rcases nonneg.eq_or_lt with rfl | positive
  · exact roundMagnitude_zero
  · exact le_antisymm (roundMagnitude_le_of_representable nonneg representable (le_refl _))
      (le_roundMagnitude_of_representable positive representable (le_refl _))

theorem placeOf_mono {left right : ℚ} (positive : 0 < left) (below : left ≤ right) :
    placeOf left ≤ placeOf right := by
  have log := Int.log_mono_right (b := 2) positive below
  unfold placeOf
  omega

/-- Rounding keeps the order. -/
theorem roundMagnitude_mono {left right : ℚ} (nonneg : 0 ≤ left) (below : left ≤ right) :
    roundMagnitude left ≤ roundMagnitude right := by
  rcases nonneg.eq_or_lt with rfl | positive
  · rw [roundMagnitude_zero]
    exact roundMagnitude_nonneg right
  · rcases (placeOf_mono positive below).lt_or_eq with less | same
    · have full := (nearestEven_place_le (lt_of_lt_of_le positive below)).2.resolve_right (by
        have lowest : -1074 ≤ placeOf left := le_max_right _ _
        omega)
      calc roundMagnitude left ≤ 2 ^ (53 : ℤ) * 2 ^ placeOf left := by
            apply mul_le_mul_of_nonneg_right _ (two_zpow_pos _).le
            exact_mod_cast (nearestEven_place_le positive).1
        _ ≤ 2 ^ (52 : ℤ) * 2 ^ placeOf right := by
            rw [← zpow_add₀ two_ne_zero, ← zpow_add₀ two_ne_zero]
            exact zpow_le_zpow_right₀ one_le_two (by omega)
        _ ≤ roundMagnitude right := by
            apply mul_le_mul_of_nonneg_right _ (two_zpow_pos _).le
            exact_mod_cast full
    · unfold roundMagnitude
      rw [same]
      apply mul_le_mul_of_nonneg_right _ (two_zpow_pos _).le
      exact_mod_cast nearestEven_mono (div_le_div_of_nonneg_right below (two_zpow_pos _).le)

/-- A magnitude below half of the smallest positive one vanishes. -/
theorem roundMagnitude_eq_zero {magnitude : ℚ} (tiny : magnitude < 2 ^ (-1075 : ℤ)) (nonneg : 0 ≤ magnitude) :
    roundMagnitude magnitude = 0 := by
  rcases nonneg.eq_or_lt with rfl | positive
  · exact roundMagnitude_zero
  · have log := (lt_two_zpow_iff positive).mp tiny
    have place : placeOf magnitude = -1074 := by
      unfold placeOf
      omega
    have less : magnitude / 2 ^ (-1074 : ℤ) < 1 / 2 := by
      rw [div_lt_iff₀ (two_zpow_pos _)]
      have half : (1 : ℚ) / 2 * 2 ^ (-1074 : ℤ) = 2 ^ (-1075 : ℤ) := by
        rw [one_div, ← zpow_neg_one, ← zpow_add₀ two_ne_zero]
        rfl
      rwa [half]
    have floor : ⌊magnitude / 2 ^ (-1074 : ℤ)⌋₊ = 0 := Nat.floor_eq_zero.mpr (by linarith)
    have none : nearestEven (magnitude / 2 ^ (-1074 : ℤ)) = 0 := by
      simp only [nearestEven, floor]
      rw [if_pos (by rw [Nat.cast_zero, zero_add]; exact less)]
    rw [roundMagnitude, place, none, Nat.cast_zero, zero_mul]

/-! ## The error -/

theorem abs_nearestEven_sub_le {value : ℚ} (nonneg : 0 ≤ value) :
    |(nearestEven value : ℚ) - value| ≤ 1 / 2 := by
  have floor := Nat.floor_le nonneg
  have ceiling := Nat.lt_floor_add_one value
  have parity : ⌊value⌋₊ % 2 = 0 ∨ ⌊value⌋₊ % 2 = 1 := Nat.mod_two_eq_zero_or_one _
  rw [abs_le]
  simp only [nearestEven]
  split
  · constructor <;> linarith
  · split
    · rcases parity with even | odd
      · rw [even]
        push_cast
        constructor <;> linarith
      · rw [odd]
        push_cast
        constructor <;> linarith
    · rename_i below apart
      have above : (⌊value⌋₊ : ℚ) + 1 / 2 ≤ value := not_lt.mp below
      push_cast
      constructor <;> linarith

/-- Above the subnormal range the error is no more than one part in two to the fifty-third. -/
theorem abs_roundMagnitude_sub_le {magnitude : ℚ} (normal : 2 ^ (-1022 : ℤ) ≤ magnitude) :
    |roundMagnitude magnitude - magnitude| ≤ magnitude / 2 ^ 53 := by
  have positive : 0 < magnitude := lt_of_lt_of_le (two_zpow_pos _) normal
  have log := (two_zpow_le_iff positive).mp normal
  have place : placeOf magnitude = Int.log 2 magnitude - 52 := by
    unfold placeOf
    omega
  have power := two_zpow_pos (placeOf magnitude)
  have scaled := abs_nearestEven_sub_le (div_nonneg positive.le power.le)
  have split : roundMagnitude magnitude - magnitude =
      (nearestEven (magnitude / 2 ^ placeOf magnitude) - magnitude / 2 ^ placeOf magnitude) *
        2 ^ placeOf magnitude := by
    rw [sub_mul, div_mul_cancel₀ _ power.ne', roundMagnitude]
  have least : (2 : ℚ) ^ placeOf magnitude * 2 ^ (52 : ℕ) ≤ magnitude := by
    rw [← zpow_natCast, ← zpow_add₀ two_ne_zero, two_zpow_le_iff positive, place]
    push_cast
    omega
  rw [split, abs_mul, abs_of_pos power, le_div_iff₀ (by norm_num)]
  calc _ ≤ 1 / 2 * (2 : ℚ) ^ placeOf magnitude * 2 ^ 53 := by gcongr
    _ = (2 : ℚ) ^ placeOf magnitude * 2 ^ (52 : ℕ) := by ring
    _ ≤ magnitude := least

/-- A rounded quotient of an integer, scaled back, misses the integer by no more than one part in two to the
fifty-third. -/
theorem abs_roundMagnitude_div_mul_sub_le (integer : ℕ) {scale : ℚ} (least : 1 ≤ scale)
    (range : scale ≤ 2 ^ 100) :
    |roundMagnitude (integer / scale) * scale - integer| ≤ integer / 2 ^ 53 := by
  have positive : 0 < scale := lt_of_lt_of_le one_pos least
  rcases Nat.eq_zero_or_pos integer with rfl | filled
  · rw [Nat.cast_zero, zero_div, zero_div, roundMagnitude_zero]
    norm_num
  · have one : (1 : ℚ) ≤ integer := by exact_mod_cast filled
    have normal : (2 : ℚ) ^ (-1022 : ℤ) ≤ integer / scale := by
      rw [le_div_iff₀ positive]
      calc (2 : ℚ) ^ (-1022 : ℤ) * scale ≤ 2 ^ (-100 : ℤ) * 2 ^ (100 : ℤ) :=
            mul_le_mul (zpow_le_zpow_right₀ one_le_two (by decide)) (by exact_mod_cast range) positive.le
              (two_zpow_pos _).le
        _ = 1 := by rw [← zpow_add₀ two_ne_zero, neg_add_cancel, zpow_zero]
        _ ≤ integer := one
    have split : roundMagnitude (integer / scale) * scale - integer =
        (roundMagnitude (integer / scale) - integer / scale) * scale := by
      rw [sub_mul, div_mul_cancel₀ _ positive.ne']
    rw [split, abs_mul, abs_of_pos positive]
    calc |roundMagnitude (integer / scale) - integer / scale| * scale
        ≤ integer / scale / 2 ^ 53 * scale :=
          mul_le_mul_of_nonneg_right (abs_roundMagnitude_sub_le normal) positive.le
      _ = integer / 2 ^ 53 := by field_simp

end LineCalc.Binary64
