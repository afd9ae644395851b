import LineCalc.Proofs.Binary64.Representable

/-!
# The closest representable magnitude

No representable magnitude is closer to an exact one than its rounding. So what is as close to a rounded
magnitude as the exact one is rounded alike, except next to a power of two, where the places on the two sides
differ.
-/

set_option autoImplicit false

namespace LineCalc.Binary64

/-! ## The closest integer -/

/-- A tie goes to an even integer. -/
private theorem nearestEven_mod_two_of_tie {value : ℚ} (tie : |(nearestEven value : ℚ) - value| = 1 / 2)
    (nonneg : 0 ≤ value) : nearestEven value % 2 = 0 := by
  have floor := Nat.floor_le nonneg
  have ceiling := Nat.lt_floor_add_one value
  simp only [nearestEven] at tie ⊢
  split_ifs at tie ⊢ with below middle
  · rw [abs_of_nonpos (by linarith)] at tie
    linarith
  · omega
  · have above : (⌊value⌋₊ : ℚ) + 1 / 2 < value := lt_of_le_of_ne (not_lt.mp below) (Ne.symm middle)
    push_cast at tie
    rw [abs_of_pos (by linarith)] at tie
    linarith

theorem nearestEven_eq_iff {value : ℚ} (nonneg : 0 ≤ value) {integer : ℕ} :
    nearestEven value = integer ↔
      |(integer : ℚ) - value| < 1 / 2 ∨ |(integer : ℚ) - value| = 1 / 2 ∧ integer % 2 = 0 := by
  constructor
  · rintro rfl
    rcases (abs_nearestEven_sub_le nonneg).lt_or_eq with less | tie
    · exact .inl less
    · exact .inr ⟨tie, nearestEven_mod_two_of_tie tie nonneg⟩
  · intro near
    obtain ⟨lower, upper⟩ := abs_le.mp (abs_nearestEven_sub_le nonneg)
    have within : |(integer : ℚ) - value| ≤ 1 / 2 := near.elim le_of_lt fun tie => tie.1.le
    obtain ⟨floor, ceiling⟩ := abs_le.mp within
    by_contra apart
    rcases Nat.lt_or_gt_of_ne apart with less | more
    · have step : (nearestEven value : ℚ) + 1 ≤ integer := by exact_mod_cast less
      have tie : (integer : ℚ) - value = 1 / 2 := by linarith
      have other : |(nearestEven value : ℚ) - value| = 1 / 2 := by
        rw [abs_of_nonpos (by linarith)]
        linarith
      have next : integer = nearestEven value + 1 := by
        have same : (integer : ℚ) = nearestEven value + 1 := by linarith
        exact_mod_cast same
      have even := nearestEven_mod_two_of_tie other nonneg
      have parity := (near.resolve_left (by rw [tie, abs_of_pos one_half_pos]; exact lt_irrefl _)).2
      omega
    · have step : (integer : ℚ) + 1 ≤ nearestEven value := by exact_mod_cast more
      have tie : (integer : ℚ) - value = -(1 / 2) := by linarith
      have other : |(nearestEven value : ℚ) - value| = 1 / 2 := by
        rw [abs_of_nonneg (by linarith)]
        linarith
      have next : nearestEven value = integer + 1 := by
        have same : (nearestEven value : ℚ) = integer + 1 := by linarith
        exact_mod_cast same
      have even := nearestEven_mod_two_of_tie other nonneg
      have parity := (near.resolve_left (by rw [tie, abs_neg, abs_of_pos one_half_pos]; exact lt_irrefl _)).2
      omega

/-- No integer is closer than the nearest one. -/
private theorem abs_nearestEven_sub_le_abs_sub {value : ℚ} (nonneg : 0 ≤ value) (integer : ℕ) :
    |(nearestEven value : ℚ) - value| ≤ |(integer : ℚ) - value| := by
  rcases le_or_gt (1 / 2) |(integer : ℚ) - value| with far | near
  · exact le_trans (abs_nearestEven_sub_le nonneg) far
  · rw [(nearestEven_eq_iff nonneg).mpr (.inl near)]

/-- What is as close to an integer as a value that is rounded to it is rounded to it too. -/
private theorem nearestEven_eq_of_abs_sub_le {near far : ℚ} (nearNonneg : 0 ≤ near) (farNonneg : 0 ≤ far)
    (closer : |(nearestEven far : ℚ) - near| ≤ |(nearestEven far : ℚ) - far|) :
    nearestEven near = nearestEven far := by
  rw [nearestEven_eq_iff nearNonneg]
  rcases (nearestEven_eq_iff farNonneg).mp rfl with less | ⟨tie, even⟩
  · exact .inl (lt_of_le_of_lt closer less)
  · rw [tie] at closer
    exact closer.lt_or_eq.imp id fun same => ⟨same, even⟩

/-! ## The closest magnitude -/

theorem placeOf_eq {magnitude : ℚ} {place : ℤ} (fine : -1074 ≤ place)
    (lower : 2 ^ (52 + place) ≤ magnitude) (upper : magnitude < 2 ^ (53 + place)) :
    placeOf magnitude = place := by
  have positive : 0 < magnitude := lt_of_lt_of_le (two_zpow_pos _) lower
  rw [two_zpow_le_iff positive] at lower
  rw [lt_two_zpow_iff positive] at upper
  unfold placeOf
  omega

/-- No multiple of the last place is closer than the rounded magnitude. -/
private theorem abs_roundMagnitude_sub_le_abs_mul_sub {magnitude : ℚ} (nonneg : 0 ≤ magnitude)
    (integer : ℕ) :
    |roundMagnitude magnitude - magnitude| ≤ |integer * 2 ^ placeOf magnitude - magnitude| := by
  have power := two_zpow_pos (placeOf magnitude)
  have nearest := abs_nearestEven_sub_le_abs_sub (div_nonneg nonneg power.le) integer
  have scaled := mul_le_mul_of_nonneg_right nearest power.le
  rwa [← abs_of_pos power, ← abs_mul, ← abs_mul, abs_of_pos power, sub_mul, sub_mul,
    div_mul_cancel₀ _ power.ne'] at scaled

/-- No representable magnitude is closer than the rounded one. -/
theorem abs_roundMagnitude_sub_le_abs_sub {magnitude bound : ℚ} (positive : 0 < magnitude)
    (representable : Representable bound) : |roundMagnitude magnitude - magnitude| ≤ |bound - magnitude| := by
  obtain ⟨mantissa, exponent, small, fine, rfl⟩ := representable
  rcases le_or_gt (placeOf magnitude) exponent with place | place
  · obtain ⟨amount, same⟩ := Int.le.dest place
    have multiple : (mantissa : ℚ) * 2 ^ exponent =
        (mantissa * 2 ^ amount : ℕ) * 2 ^ placeOf magnitude := by
      rw [← same, zpow_add₀ two_ne_zero, zpow_natCast]
      push_cast
      ring
    rw [multiple]
    exact abs_roundMagnitude_sub_le_abs_mul_sub positive.le _
  · have log : 52 + placeOf magnitude ≤ Int.log 2 magnitude := by
      unfold placeOf at place ⊢
      omega
    have least : (2 ^ 52 : ℕ) * (2 : ℚ) ^ placeOf magnitude ≤ magnitude := by
      rw [Nat.cast_pow, Nat.cast_ofNat, ← zpow_natCast, ← zpow_add₀ two_ne_zero]
      exact (two_zpow_le_iff positive).mpr log
    have below : (mantissa : ℚ) * 2 ^ exponent ≤ (2 ^ 52 : ℕ) * 2 ^ placeOf magnitude := by
      calc (mantissa : ℚ) * 2 ^ exponent ≤ 2 ^ (53 : ℤ) * 2 ^ exponent := by
            apply mul_le_mul_of_nonneg_right _ (two_zpow_pos exponent).le
            exact_mod_cast small.le
        _ ≤ 2 ^ (52 : ℤ) * 2 ^ placeOf magnitude := by
            rw [← zpow_add₀ two_ne_zero, ← zpow_add₀ two_ne_zero]
            exact zpow_le_zpow_right₀ one_le_two (by omega)
        _ = (2 ^ 52 : ℕ) * 2 ^ placeOf magnitude := by norm_num
    calc |roundMagnitude magnitude - magnitude|
        ≤ |(2 ^ 52 : ℕ) * 2 ^ placeOf magnitude - magnitude| :=
          abs_roundMagnitude_sub_le_abs_mul_sub positive.le _
      _ ≤ |(mantissa : ℚ) * 2 ^ exponent - magnitude| := by
          rw [abs_of_nonpos (by linarith), abs_of_nonpos (by linarith)]
          linarith

/-- What is as close to a rounded magnitude as the exact one is rounded to it too, unless it is a power of
two, whose neighbours are not equally far. -/
theorem roundMagnitude_eq_of_abs_sub_le {near far : ℚ} (normal : 2 ^ (-1022 : ℤ) ≤ far)
    (apart : ∀ exponent : ℤ, -1074 ≤ exponent → roundMagnitude far ≠ 2 ^ exponent)
    (closer : |roundMagnitude far - near| ≤ |roundMagnitude far - far|) :
    roundMagnitude near = roundMagnitude far := by
  have positive : 0 < far := lt_of_lt_of_le (two_zpow_pos _) normal
  have power := two_zpow_pos (placeOf far)
  have fine : -1074 ≤ placeOf far := le_max_right _ _
  have farNonneg : 0 ≤ far / 2 ^ placeOf far := div_nonneg positive.le power.le
  have rounded : roundMagnitude far = nearestEven (far / 2 ^ placeOf far) * 2 ^ placeOf far := rfl
  have lower : 2 ^ 52 < nearestEven (far / 2 ^ placeOf far) := by
    apply lt_of_le_of_ne
    · apply le_nearestEven
      have log := (two_zpow_le_iff positive).mp normal
      rw [le_div_iff₀ power, Nat.cast_pow, Nat.cast_ofNat, ← zpow_natCast, ← zpow_add₀ two_ne_zero,
        two_zpow_le_iff positive]
      unfold placeOf
      omega
    · intro same
      apply apart (52 + placeOf far) (by omega)
      rw [rounded, ← same, zpow_add₀ two_ne_zero]
      norm_num
  have upper : nearestEven (far / 2 ^ placeOf far) < 2 ^ 53 := by
    apply lt_of_le_of_ne (nearestEven_place_le positive).1
    intro same
    apply apart (53 + placeOf far) (by omega)
    rw [rounded, same, zpow_add₀ two_ne_zero]
    norm_num
  have digits : |(nearestEven (far / 2 ^ placeOf far) : ℚ) - near / 2 ^ placeOf far| ≤
      |(nearestEven (far / 2 ^ placeOf far) : ℚ) - far / 2 ^ placeOf far| := by
    have scaled := div_le_div_of_nonneg_right closer power.le
    rwa [← abs_of_pos power, ← abs_div, ← abs_div, sub_div, sub_div, rounded,
      mul_div_cancel_right₀ _ power.ne'] at scaled
  obtain ⟨floor, ceiling⟩ := abs_le.mp (digits.trans (abs_nearestEven_sub_le farNonneg))
  have least : (2 : ℚ) ^ 52 + 1 ≤ nearestEven (far / 2 ^ placeOf far) := by exact_mod_cast lower
  have most : (nearestEven (far / 2 ^ placeOf far) : ℚ) + 1 ≤ 2 ^ 53 := by exact_mod_cast upper
  have reaches : (2 : ℚ) ^ 52 ≤ near / 2 ^ placeOf far := by linarith
  have stays : near / 2 ^ placeOf far < 2 ^ 53 := by linarith
  have place : placeOf near = placeOf far := by
    apply placeOf_eq fine
    · rwa [zpow_add₀ two_ne_zero, ← le_div_iff₀ power]
    · rwa [zpow_add₀ two_ne_zero, ← div_lt_iff₀ power]
  rw [rounded, roundMagnitude, place,
    nearestEven_eq_of_abs_sub_le (le_trans (by norm_num) reaches) farNonneg digits]

end LineCalc.Binary64
