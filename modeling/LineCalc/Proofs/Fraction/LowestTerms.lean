import LineCalc.Proofs.Fraction.Minimal

/-!
# Lowest terms

A fraction that is not in lowest terms has a smaller denominator for the same quotient. The scan tries that
denominator first, and although the product and the quotient are rounded it finds the reduced numerator there,
with the same error. So the scan keeps a fraction only in lowest terms, without reducing any.
-/

set_option autoImplicit false

namespace LineCalc.Fraction

open Binary64

variable {value : Float} {magnitude : ℚ} {limit denominator : ℕ}

/-! ## The product that is kept -/

/-- Every denominator but the first is kept with its own numerator. -/
private theorem numerator_scan (apart : (scan value limit).denominator ≠ 1) :
    (scan value limit).numerator = (Candidate.over value (scan value limit).denominator).numerator := by
  have kept : (scan value limit).denominator = 1 ∨
      scan value limit = .over value (scan value limit).denominator :=
    scan_induction (fun best => best.denominator = 1 ∨ best = .over value best.denominator) limit
      (.inl rfl) fun _ _ _ _ _ => .inr rfl
  exact congrArg Candidate.numerator (kept.resolve_left apart)

/-- The products that matter have no binary places beyond fifty-three digits. -/
private theorem mul_denominator_scan_le (denotes : Denotes value .positive magnitude)
    (small : limit < 2 ^ 53)
    (apart : (scan value limit).denominator ≠ 1) :
    magnitude * (scan value limit).denominator ≤ (2 ^ 53 - 1 : ℕ) := by
  have kept := quotient_scan denotes limit
  have lower := kept.lower
  have upper := kept.upper
  rcases denotes.exists_natCast_or_places with ⟨integer, rfl⟩ | ⟨mantissa, digits, few, some, fine, rfl⟩
  · have least : (scan value limit).denominator ≤ 1 :=
      denominator_scan_le denotes limit (le_refl 1) (error_over_one denotes)
    omega
  · have clears : (scan value limit).denominator ≤ 2 ^ digits := by
      rcases lt_or_ge (2 ^ digits) (2 ^ 53) with short | long
      · exact denominator_scan_le denotes limit Nat.one_le_two_pow (error_over_two_pow few short denotes)
      · omega
    have power := two_zpow_pos (-digits : ℤ)
    have cleared : ((scan value limit).denominator : ℚ) ≤ 2 ^ digits := by exact_mod_cast clears
    calc (mantissa : ℚ) * 2 ^ (-digits : ℤ) * (scan value limit).denominator
        ≤ mantissa * 2 ^ (-digits : ℤ) * 2 ^ digits := by gcongr
      _ = mantissa := by
          rw [mul_assoc, zpow_neg, zpow_natCast, inv_mul_cancel₀ (by positivity), mul_one]
      _ ≤ (2 ^ 53 - 1 : ℕ) := by
          exact_mod_cast (show mantissa ≤ 2 ^ 53 - 1 by omega)

/-! ## The reduced denominator -/

/-- The numerator that is tried over a denominator. -/
private theorem denotes_numerator_over (denotes : Denotes value .positive magnitude)
    (few : denominator < 2 ^ 53) (small : magnitude * denominator ≤ (2 ^ 53 - 1 : ℕ)) :
    Denotes (Candidate.over value denominator).numerator .positive
      ⌊roundMagnitude (magnitude * denominator) + 1 / 2⌋₊ := by
  have rounded := denotes.mul (denotes_ofNat few)
  have bound : magnitude * denominator ≤ (2 ^ 53 - 1 : ℕ) * 2 ^ (0 : ℤ) := by
    rwa [zpow_zero, mul_one]
  have product := rounded.denotes (rounded.isFinite_of_le (by decide) (by decide) (by decide) bound)
  obtain ⟨sign, nearest, signed⟩ := denotes_nearestInteger product
  rw [signed (.inl rfl)] at nearest
  exact nearest

/-- Over a divisor of a denominator the reduced numerator is tried. -/
private theorem floor_of_mul {integer factor : ℕ} (nonneg : 0 ≤ magnitude) (some : 2 ≤ factor)
    (small : magnitude * factor ≤ (2 ^ 53 - 1 : ℕ))
    (whole : ⌊roundMagnitude (magnitude * factor) + 1 / 2⌋₊ = integer * factor) :
    ⌊roundMagnitude magnitude + 1 / 2⌋₊ = integer := by
  have least : (2 : ℚ) ≤ factor := by exact_mod_cast some
  have product : 0 ≤ magnitude * factor := mul_nonneg nonneg (Nat.cast_nonneg factor)
  have digits := floor_lt_of_le_sub_one product small
  have lower := floor_sub_one_le product digits
  have upper := le_floor_add_half product small
  rw [whole] at digits lower upper
  push_cast at lower upper
  have half : integer * 2 ≤ integer * factor := Nat.mul_le_mul_left integer some
  apply floor_roundMagnitude_add_half (by omega) nonneg
  · have scaled : (integer - 1 / 2) * (factor : ℚ) ≤ magnitude * factor := by linarith
    exact le_of_mul_le_mul_right scaled (by linarith)
  · have scaled : magnitude * (factor : ℚ) ≤ (integer + 1 / 4) * factor := by linarith
    exact le_of_mul_le_mul_right scaled (by linarith)

private theorem div_eq_of_mul {numerator reduced divisor less : Float} {integer factor : ℕ}
    (positive : 1 ≤ denominator) (some : factor ≠ 0)
    (first : Denotes numerator .positive (integer * factor : ℕ))
    (second : Denotes divisor .positive (denominator * factor : ℕ))
    (third : Denotes reduced .positive integer) (fourth : Denotes less .positive denominator) :
    numerator / divisor = reduced / less := by
  have least : (1 : ℚ) ≤ denominator := by exact_mod_cast positive
  have nonzero : (denominator : ℚ) ≠ 0 := by positivity
  have filled : (factor : ℚ) ≠ 0 := Nat.cast_ne_zero.mpr some
  have same : ((integer * factor : ℕ) : ℚ) / (denominator * factor : ℕ) = integer / denominator := by
    push_cast
    exact mul_div_mul_right _ _ filled
  have quotient := first.div second (by push_cast; exact mul_ne_zero nonzero filled)
  rw [same] at quotient
  have bound : (integer : ℚ) / denominator ≤ integer := div_le_self (Nat.cast_nonneg _) least
  exact (quotient.denotes_of_le third bound).unique ((third.div fourth nonzero).denotes_of_le third bound)

/-- Over a divisor of the denominator that is kept the numerator is the reduced one. -/
private theorem denotes_numerator_over_of_mul {integer factor : ℕ}
    (denotes : Denotes value .positive magnitude)
    (small : limit < 2 ^ 53) (positive : 1 ≤ denominator) (some : 2 ≤ factor)
    (numerator : Denotes (scan value limit).numerator .positive (integer * factor : ℕ))
    (divided : (scan value limit).denominator = denominator * factor) :
    Denotes (Candidate.over value denominator).numerator .positive integer := by
  have upper := (quotient_scan denotes limit).upper
  have grows := Nat.mul_le_mul positive some
  have apart : (scan value limit).denominator ≠ 1 := by omega
  have few : (scan value limit).denominator < 2 ^ 53 := by omega
  have bounded := mul_denominator_scan_le denotes small apart
  have whole := denotes_numerator_over denotes few bounded
  rw [numerator_scan apart] at numerator
  rw [divided] at few bounded whole numerator
  have floor : ⌊roundMagnitude (magnitude * denominator * factor) + 1 / 2⌋₊ = integer * factor := by
    rw [mul_assoc]
    exact_mod_cast (whole.eq numerator).2
  have smaller : magnitude * denominator * factor ≤ (2 ^ 53 - 1 : ℕ) := by
    rw [mul_assoc]
    exact_mod_cast bounded
  have product : 0 ≤ magnitude * denominator := mul_nonneg denotes.nonneg (Nat.cast_nonneg denominator)
  have one : (1 : ℚ) ≤ factor := by exact_mod_cast (show 1 ≤ factor by omega)
  have reduced := denotes_numerator_over denotes
    (lt_of_le_of_lt (Nat.le_mul_of_pos_right denominator (by omega)) few)
    (le_trans (le_mul_of_one_le_right product one) smaller)
  rwa [floor_of_mul product some smaller floor] at reduced

/-- Over a divisor of the denominator that is kept the error is the same if the numerator can be divided. -/
private theorem error_over_of_mul {integer factor : ℕ} (denotes : Denotes value .positive magnitude)
    (small : limit < 2 ^ 53) (positive : 1 ≤ denominator) (some : 2 ≤ factor)
    (numerator : Denotes (scan value limit).numerator .positive (integer * factor : ℕ))
    (divided : (scan value limit).denominator = denominator * factor) :
    (Candidate.over value denominator).error = (scan value limit).error := by
  have kept := quotient_scan denotes limit
  have upper := kept.upper
  have few : denominator * factor < 2 ^ 53 := by omega
  have bound := Nat.le_mul_of_pos_right denominator (show 0 < factor by omega)
  have reduced := denotes_numerator_over_of_mul denotes small positive some numerator divided
  have same := div_eq_of_mul positive (show factor ≠ 0 by omega) numerator (denotes_ofNat few) reduced
    (denotes_ofNat (lt_of_le_of_lt bound few))
  rw [kept.distance, divided, errorOf, same]
  rfl

/-- The candidate that the scan keeps is in lowest terms. -/
theorem coprime_scan {integer : ℕ} (denotes : Denotes value .positive magnitude) (small : limit < 2 ^ 53)
    (numerator : Denotes (scan value limit).numerator .positive integer) :
    integer.Coprime (scan value limit).denominator := by
  have lower := (quotient_scan denotes limit).lower
  by_contra common
  obtain ⟨reduced, whole⟩ := Nat.gcd_dvd_left integer (scan value limit).denominator
  obtain ⟨denominator, divided⟩ := Nat.gcd_dvd_right integer (scan value limit).denominator
  have positive := Nat.gcd_pos_of_pos_right integer (show 0 < (scan value limit).denominator by omega)
  have some : 2 ≤ integer.gcd (scan value limit).denominator := by
    rw [Nat.coprime_iff_gcd_eq_one] at common
    omega
  rw [mul_comm] at whole divided
  generalize integer.gcd (scan value limit).denominator = factor at whole divided positive some
  subst whole
  have least : 1 ≤ denominator := by
    apply Nat.pos_of_ne_zero
    rintro rfl
    omega
  have same := error_over_of_mul denotes small least some numerator divided
  have earlier := denominator_scan_le_of_error_eq denotes least same
  have grows := Nat.mul_le_mul_left denominator some
  omega

/-- The fraction that is shown for a value is in lowest terms, so a zero numerator comes over one. -/
theorem coprime_of_approximate? {maxDenominator : Int} {fraction : Fraction}
    (small : maxDenominator < 2 ^ 53) (shown : approximate? value maxDenominator = some fraction) :
    fraction.numerator.natAbs.Coprime fraction.denominator ∧
      (fraction.numerator = 0 → fraction.denominator = 1) := by
  obtain ⟨sign, magnitude, denotes⟩ := exists_denotes (isFinite_of_approximate? shown)
  have kept := kept_of_approximate? shown
  have coprime := coprime_scan denotes.abs (show maxDenominator.toNat < 2 ^ 53 by omega) kept.numerator
  rw [kept.denominator] at coprime
  refine ⟨coprime, fun zero => ?_⟩
  rwa [zero, Int.natAbs_zero, Nat.coprime_zero_left] at coprime

/-- The law at a value that a multiple of the denominator in reach gives too. -/
theorem coprime_of_approximate?_of_hundredths :
    approximate? (-0.36) 50 = some ⟨-9, 25⟩ ∧ Nat.Coprime 9 25 := by
  have shown : approximate? (-0.36) 50 = some ⟨-9, 25⟩ := by decide +kernel
  exact ⟨shown, (coprime_of_approximate? (by decide) shown).1⟩

end LineCalc.Fraction
