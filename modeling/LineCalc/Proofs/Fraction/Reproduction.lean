import LineCalc.Proofs.Decimal.Numeral
import LineCalc.Proofs.Fraction.Exact

/-!
# Values that the scan reproduces

An error of zero is never replaced, so the scan ends with one as soon as some denominator is exact. The
candidate that is kept is a quotient of integers, and with an error of zero it is the value itself.
-/

set_option autoImplicit false

namespace LineCalc.Fraction

open Binary64
open Float.Model.UnpackedFloat (Sign)

variable {value : Float} {magnitude : ℚ}

/-! ## The error that stands -/

private theorem error_one_eq_zero_or_pos (denotes : Denotes value .positive magnitude) :
    (Candidate.one value).error = 0 ∨ 0 < (Candidate.one value).error := by
  rcases eq_or_ne value 1 with rfl | apart
  · exact .inl ((congrArg Float.abs (sub_self_of_isFinite denotes.isFinite)).trans abs_zero)
  · exact .inr (denotes.zero_lt_abs_sub denotes_one apart)

theorem error_scan_eq_zero_or_pos (denotes : Denotes value .positive magnitude) (limit : Nat) :
    (scan value limit).error = 0 ∨ 0 < (scan value limit).error := by
  apply scan_induction (fun best => best.error = 0 ∨ 0 < best.error) limit
    (error_one_eq_zero_or_pos denotes)
  intro best denominator _ _ nearer
  exact abs_eq_zero_or_pos (isFinite_of_abs_lt nearer)

/-- An exact denominator in reach leaves no error. -/
theorem error_scan_eq_zero (denotes : Denotes value .positive magnitude) {denominator limit : Nat}
    (lower : 1 ≤ denominator) (upper : denominator ≤ limit)
    (exact : (Candidate.over value denominator).error = 0) : (scan value limit).error = 0 := by
  induction limit, upper using Nat.le_induction with
  | base =>
    obtain ⟨before, rfl⟩ := Nat.exists_eq_add_of_le' lower
    rw [scan_succ, Candidate.improve]
    split
    · exact exact
    · rename_i standing
      rw [exact] at standing
      exact (error_scan_eq_zero_or_pos denotes before).resolve_right standing
  | succ limit _ ih =>
    rw [scan_succ, Candidate.improve, ih, if_neg]
    · exact ih
    · exact not_abs_lt_zero

/-! ## The candidate that is kept -/

/-- A candidate with an integer over a denominator in reach, and its distance from the value. -/
structure Candidate.Quotient (value : Float) (limit : Nat) (candidate : Candidate) : Prop where
  integral : ∃ integer : ℕ, Denotes candidate.numerator .positive integer
  lower : 1 ≤ candidate.denominator
  upper : candidate.denominator ≤ max limit 1
  distance : candidate.error = errorOf value candidate.numerator (Float.ofNat candidate.denominator)

private theorem quotient_one (value : Float) (limit : Nat) :
    Candidate.Quotient value limit (.one value) where
  integral := ⟨1, by rw [Nat.cast_one]; exact denotes_one⟩
  lower := le_refl 1
  upper := le_max_right limit 1
  distance := by
    have one : (1 : Float) / Float.ofNat 1 = 1 := by decide +kernel
    rw [errorOf, Candidate.one, one]

private theorem quotient_over (denotes : Denotes value .positive magnitude) {denominator limit : Nat}
    (lower : 1 ≤ denominator) (upper : denominator ≤ limit)
    (finite : (Candidate.over value denominator).numerator.isFinite = true) :
    Candidate.Quotient value limit (.over value denominator) where
  integral := by
    have scaled := isFinite_of_nearestInteger finite
    have divisor := (rounded_ofScientific denominator false).denotes (isFinite_of_mul scaled).2
    obtain ⟨sign, nearest, signed⟩ := denotes_nearestInteger ((denotes.mul divisor).denotes scaled)
    rw [signed (.inl rfl)] at nearest
    exact ⟨_, nearest⟩
  lower := lower
  upper := le_max_of_le_left upper
  distance := rfl

theorem quotient_scan (denotes : Denotes value .positive magnitude) (limit : Nat) :
    Candidate.Quotient value limit (scan value limit) := by
  apply scan_induction (Candidate.Quotient value limit) limit (quotient_one value limit)
  intro best denominator lower upper nearer
  exact quotient_over denotes lower upper (isFinite_numerator_of_error_lt nearer)

/-- A quotient without an error is the value. -/
theorem Candidate.Quotient.div_eq {limit : Nat} {candidate : Candidate}
    (quotient : Candidate.Quotient value limit candidate) (denotes : Denotes value .positive magnitude)
    (small : candidate.denominator < 2 ^ 53) (exact : candidate.error = 0) :
    candidate.numerator / Float.ofNat candidate.denominator = value := by
  obtain ⟨integer, numerator⟩ := quotient.integral
  have divisor := denotes_ofNat small
  have positive : (candidate.denominator : ℚ) ≠ 0 := by
    have lower := quotient.lower
    positivity
  have least : (1 : ℚ) ≤ candidate.denominator := by exact_mod_cast quotient.lower
  have rounded := (numerator.div divisor positive).denotes_of_le numerator
    (div_le_self (Nat.cast_nonneg _) least)
  by_contra apart
  have away : 0 < candidate.error := by
    rw [quotient.distance, errorOf]
    exact denotes.zero_lt_abs_sub rounded (Ne.symm apart)
  rw [exact] at away
  exact absurd away (by decide +kernel)

/-! ## The fraction that is shown -/

/-- A fraction with a denominator in reach whose numerator is negative only if a value is. -/
structure Bounded (fraction : Fraction) (maxDenominator : Int) (value : Float) : Prop where
  lower : 1 ≤ fraction.denominator
  upper : (fraction.denominator : Int) ≤ maxDenominator
  signed : fraction.numerator < 0 → value < 0

/-- The fraction of the candidate that the scan keeps for a value, with the sign of the value. -/
structure Kept (fraction : Fraction) (maxDenominator : Int) (value : Float) : Prop where
  numerator : Denotes (scan value.abs maxDenominator.toNat).numerator .positive fraction.numerator.natAbs
  denominator : (scan value.abs maxDenominator.toNat).denominator = fraction.denominator
  signed : fraction.numerator < 0 ↔ value < 0 ∧ fraction.numerator ≠ 0

/-- A finite value is shown as the fraction that is kept for it. -/
theorem exists_kept (finite : value.isFinite = true) (maxDenominator : Int) :
    ∃ fraction, approximate? value maxDenominator = some fraction ∧
      fraction.Kept maxDenominator value := by
  obtain ⟨sign, magnitude, denotes⟩ := exists_denotes finite
  obtain ⟨integer, numerator⟩ := (quotient_scan denotes.abs maxDenominator.toNat).integral
  have shown : approximate? value maxDenominator = some {
      numerator := if value < 0 then -(integer : Int) else integer
      denominator := (scan value.abs maxDenominator.toNat).denominator } := by
    rw [approximate?, if_pos finite]
    simp only [wholeMagnitude?_eq numerator]
    rfl
  refine ⟨_, shown, ?_, rfl, ?_⟩
  · simp only
    split
    · rwa [Int.natAbs_neg, Int.natAbs_natCast]
    · rwa [Int.natAbs_natCast]
  · by_cases below : value < 0
    · simp only [below, if_true, true_and]
      omega
    · simp only [below, if_false, false_and, iff_false, not_lt, Int.natCast_nonneg]

theorem isFinite_of_approximate? {maxDenominator : Int} {fraction : Fraction}
    (shown : approximate? value maxDenominator = some fraction) : value.isFinite = true := by
  by_contra infinite
  rw [approximate?, if_neg infinite] at shown
  cases shown

theorem kept_of_approximate? {maxDenominator : Int} {fraction : Fraction}
    (shown : approximate? value maxDenominator = some fraction) :
    fraction.Kept maxDenominator value := by
  obtain ⟨kept, same, law⟩ := exists_kept (isFinite_of_approximate? shown) maxDenominator
  rwa [Option.some.inj (same.symm.trans shown)] at law

theorem Kept.bounded {maxDenominator : Int} {fraction : Fraction}
    (kept : fraction.Kept maxDenominator value) (denotes : Denotes value.abs .positive magnitude)
    (least : 1 ≤ maxDenominator) : fraction.Bounded maxDenominator value where
  lower := by
    rw [← kept.denominator]
    exact (quotient_scan denotes maxDenominator.toNat).lower
  upper := by
    have upper := (quotient_scan denotes maxDenominator.toNat).upper
    rw [← kept.denominator]
    omega
  signed := fun negative => (kept.signed.mp negative).1

/-- The fraction that is shown for a value is bounded, also where it does not reproduce the value. -/
theorem bounded_of_approximate? {maxDenominator : Int} {fraction : Fraction}
    (shown : approximate? value maxDenominator = some fraction) (least : 1 ≤ maxDenominator) :
    fraction.Bounded maxDenominator value := by
  obtain ⟨sign, magnitude, denotes⟩ := exists_denotes (isFinite_of_approximate? shown)
  exact (kept_of_approximate? shown).bounded denotes.abs least

/-- The binary64 quotient of a fraction. -/
def quotient (fraction : Fraction) : Float :=
  Float.ofInt fraction.numerator / Float.ofNat fraction.denominator

theorem ofInt_of_nonneg {integer : Int} (nonneg : 0 ≤ integer) :
    Float.ofInt integer = Float.ofNat integer.natAbs := by
  obtain ⟨magnitude, rfl⟩ := Int.eq_ofNat_of_zero_le nonneg
  rfl

theorem ofInt_neg {integer : ℕ} (some : integer ≠ 0) :
    Float.ofInt (-(integer : Int)) = -Float.ofNat integer := by
  obtain ⟨before, rfl⟩ := Nat.exists_eq_succ_of_ne_zero some
  rfl

/-- For a value on the grid the scan keeps an integer over a denominator in reach that gives the value. -/
theorem exists_scan_exact {places limit : ℕ} (few : places ≤ 15)
    (denotes : Denotes value .positive magnitude) (grid : OnGrid places magnitude)
    (reach : 4 * 10 ^ places ≤ limit) (small : limit < 2 ^ 53) :
    ∃ integer : ℕ, Denotes (scan value limit).numerator .positive integer ∧
      1 ≤ (scan value limit).denominator ∧ (scan value limit).denominator ≤ limit ∧
      (scan value limit).numerator / Float.ofNat (scan value limit).denominator = value := by
  obtain ⟨denominator, lower, upper, exact⟩ := exists_error_over_eq_zero few denotes grid
  have inReach : denominator ≤ limit := le_trans upper reach
  have kept := quotient_scan denotes limit
  have bound : (scan value limit).denominator ≤ limit := by
    have upper := kept.upper
    rwa [max_eq_left (le_trans lower inReach)] at upper
  obtain ⟨integer, numerator⟩ := kept.integral
  exact ⟨integer, numerator, kept.lower, bound,
    kept.div_eq denotes (lt_of_le_of_lt bound small) (error_scan_eq_zero denotes lower inReach exact)⟩

theorem neg_div_eq {numerator divisor : Float} {integer denominator : ℕ} (positive : 1 ≤ denominator)
    (first : Denotes numerator .positive integer) (second : Denotes divisor .positive denominator) :
    -numerator / divisor = -(numerator / divisor) := by
  have least : (1 : ℚ) ≤ denominator := by exact_mod_cast positive
  have some : (denominator : ℚ) ≠ 0 := by positivity
  have bound : (integer : ℚ) / denominator ≤ integer := div_le_self (Nat.cast_nonneg _) least
  have below := (first.neg.div second some).denotes_of_le first bound
  have above := (first.div second some).denotes_of_le first bound
  exact below.unique above.neg

private theorem ne_zero_of_div {numerator divisor : Float} {integer denominator : ℕ}
    (positive : 1 ≤ denominator)
    (first : Denotes numerator .positive integer) (second : Denotes divisor .positive denominator)
    (apart : ¬ (numerator / divisor == 0) = true) : integer ≠ 0 := by
  rintro rfl
  have least : (1 : ℚ) ≤ denominator := by exact_mod_cast positive
  have some : (denominator : ℚ) ≠ 0 := by positivity
  have vanishes := (first.div second some).denotes_of_le first (div_le_self (Nat.cast_nonneg 0) least)
  rw [Nat.cast_zero, zero_div, roundMagnitude_zero] at vanishes
  exact apart (vanishes.beq_zero_iff.mpr rfl)

/-- A fraction with a denominator in reach that gives a value. Its numerator needs no rounding, and it is
negative only if the value is. -/
structure Reproduces (fraction : Fraction) (limit : ℕ) (value : Float) : Prop where
  lower : 1 ≤ fraction.denominator
  upper : fraction.denominator ≤ limit
  integral : ∃ numerator, Denotes numerator .positive fraction.numerator.natAbs
  signed : fraction.numerator < 0 → value < 0
  exact : fraction.quotient = value

/-- A value on the grid is reproduced by the fraction that is shown for it. -/
theorem exists_reproduces {places limit : ℕ} (few : places ≤ 15) {sign : Sign}
    (denotes : Denotes value sign magnitude) (signed : sign = .negative → magnitude ≠ 0)
    (grid : OnGrid places magnitude) (reach : 4 * 10 ^ places ≤ limit) (small : limit < 2 ^ 53) :
    ∃ fraction, approximate? value limit = some fraction ∧ fraction.Reproduces limit value := by
  obtain ⟨integer, numerator, lower, upper, same⟩ :=
    exists_scan_exact few denotes.abs grid reach small
  obtain ⟨fraction, shown, kept⟩ := exists_kept denotes.isFinite limit
  have whole := kept.numerator
  have divided := kept.denominator
  rw [Int.toNat_natCast] at whole divided
  rw [divided] at lower upper same
  obtain rfl : integer = fraction.numerator.natAbs := Nat.cast_injective (numerator.eq whole).2
  have divisor := denotes_ofNat (lt_of_le_of_lt upper small)
  have read : Float.ofNat fraction.numerator.natAbs = (scan value.abs limit).numerator :=
    (rounded_ofScientific _ false).eq_of_denotes numerator
  refine ⟨fraction, shown, lower, upper, ⟨_, numerator⟩, fun negative => (kept.signed.mp negative).1, ?_⟩
  cases sign with
  | positive =>
    have nonneg : 0 ≤ fraction.numerator := by
      by_contra negative
      cases (denotes.lt_zero_iff.mp (kept.signed.mp (not_le.mp negative)).1).1
    have absolute : value.abs = value := denotes.abs.unique denotes
    rw [quotient, ofInt_of_nonneg nonneg, read, same, absolute]
  | negative =>
    have below : value < 0 := denotes.lt_zero_iff.mpr ⟨rfl, signed rfl⟩
    have some : fraction.numerator.natAbs ≠ 0 := by
      apply ne_zero_of_div lower numerator divisor
      rw [same]
      exact fun zero => signed rfl (denotes.abs.beq_zero_iff.mp zero)
    have negative := kept.signed.mpr ⟨below, Int.natAbs_ne_zero.mp some⟩
    rw [quotient, Int.eq_neg_natAbs_of_nonpos negative.le, ofInt_neg some, read,
      neg_div_eq lower numerator divisor, same]
    exact denotes.abs.neg.unique denotes

/-! ## The text of a fraction -/

/-- How a fraction is written: a minus if the numerator is negative, the digits of the numerator, a slash, and
the digits of the denominator. -/
inductive Spells (fraction : Fraction) : String → Prop where
  | nonneg (sign : 0 ≤ fraction.numerator) :
      Spells fraction (String.ofList
        (Nat.toDigits 10 fraction.numerator.natAbs ++ '/' :: Nat.toDigits 10 fraction.denominator))
  | negative (sign : fraction.numerator < 0) :
      Spells fraction (String.ofList ('-' ::
        (Nat.toDigits 10 fraction.numerator.natAbs ++ '/' :: Nat.toDigits 10 fraction.denominator)))

theorem spells_text (fraction : Fraction) : fraction.Spells fraction.text := by
  by_cases negative : fraction.numerator < 0
  · simp only [text, if_pos negative]
    exact .negative negative
  · simp only [text, if_neg negative]
    exact .nonneg (not_lt.mp negative)

private theorem text_of_nonneg {fraction : Fraction} (nonneg : ¬ fraction.numerator < 0) :
    fraction.text = String.ofList ((Decimal.Numeral.ofNat fraction.numerator.natAbs).text ++
      '/' :: (Decimal.Numeral.ofNat fraction.denominator).text) := by
  simp only [text, if_neg nonneg]
  rfl

/-- The text of a fraction that reproduces a value is a literal of the value. -/
theorem Reproduces.valueOf_text {fraction : Fraction} {limit : ℕ}
    (reproduces : fraction.Reproduces limit value) (small : limit < 2 ^ 53) (above : 0 ≤ value) :
    Literal.valueOf fraction.text = .ok value := by
  have nonneg : ¬ fraction.numerator < 0 :=
    fun negative => not_lt_zero_of_zero_le above (reproduces.signed negative)
  obtain ⟨numerator, read⟩ := reproduces.integral
  have divisor := denotes_ofNat (lt_of_le_of_lt reproduces.upper small)
  have exact := reproduces.exact
  rw [quotient, ofInt_of_nonneg (not_lt.mp nonneg)] at exact
  rw [text_of_nonneg nonneg, Decimal.Numeral.valueOf_text_slash_text, Decimal.Numeral.value_ofNat,
    Decimal.Numeral.value_ofNat, Decimal.toFloat, Decimal.toFloat,
    (rounded_ofScientific _ true).eq_of_denotes divisor,
    (rounded_ofScientific _ true).eq_of_denotes read,
    ← (rounded_ofScientific _ false).eq_of_denotes read]
  exact congrArg Except.ok exact

end LineCalc.Fraction
