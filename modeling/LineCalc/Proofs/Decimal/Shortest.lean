import LineCalc.Decimal.Shortest
import LineCalc.Proofs.Decimal.Rounding

/-!
# The shortest decimal

The multiples of a unit that read back as a value lie around it without a gap, so if there is one then one
of the two neighbours of the value is one. The search therefore passes a place only if no multiple of its
unit reads back, and it ends at the exact decimal, which does.
-/

set_option autoImplicit false

namespace LineCalc.Decimal

open Binary64
open Float.Model.UnpackedFloat (Sign)

variable {value : Float} {magnitude : ℚ} {exact : Decimal}

/-! ## The numbers of the candidates -/

private theorem number_ofUnits (count above places : ℕ) :
    (ofUnits count above places).number = count * 10 ^ above / 10 ^ places := by
  rw [ofUnits, Nat.pow_eq]
  split
  · rename_i inside
    obtain ⟨left, rfl⟩ := Nat.exists_eq_add_of_le inside
    rw [number, Nat.add_sub_cancel_left, pow_add, mul_comm (10 ^ above : ℚ),
      mul_div_mul_right _ _ (by positivity)]
  · rename_i outside
    obtain ⟨further, rfl⟩ := Nat.exists_eq_add_of_le (Nat.le_of_not_le outside)
    rw [number, Nat.add_sub_cancel_left, pow_add, mul_left_comm, mul_div_cancel_left₀ _ (by positivity)]
    push_cast
    rw [pow_zero, div_one]

private theorem ofUnits_zero (decimal : Decimal) : ofUnits decimal.mantissa 0 decimal.places = decimal :=
  rfl

private theorem number_ofBinaryFraction (fraction : BinaryFraction) :
    (ofBinaryFraction fraction).number = fraction.mantissa / 2 ^ fraction.places := by
  have power : (10 : ℚ) ^ fraction.places = 2 ^ fraction.places * 5 ^ fraction.places := by
    rw [← mul_pow]
    norm_num
  simp only [ofBinaryFraction, number, Nat.pow_eq]
  push_cast
  rw [power, mul_div_mul_right _ _ (by positivity)]

private theorem number_ofBinaryFraction_ofFloat {sign : Sign} (denotes : Denotes value sign magnitude) :
    (ofBinaryFraction (BinaryFraction.ofFloat value)).number = magnitude := by
  rw [number_ofBinaryFraction, BinaryFraction.ofFloat_eq denotes]

/-! ## The search -/

/-- If a multiple of a unit reads back as a value then one next to the value does: the one on its side lies
between it and the value. -/
private theorem toFloat_beside (denotes : Denotes value .positive magnitude)
    (same : exact.number = magnitude)
    {count above : ℕ} (reads : (ofUnits count above exact.places).toFloat = value) :
    (ofUnits (exact.mantissa / 10 ^ above) above exact.places).toFloat = value ∨
      (ofUnits (exact.mantissa / 10 ^ above + 1) above exact.places).toFloat = value := by
  have unit : 0 < 10 ^ above := Nat.pow_pos (by decide)
  have power : (0 : ℚ) < 10 ^ exact.places := by positivity
  have ordered {left right : ℕ} (below : left ≤ right) :
      (left / 10 ^ exact.places : ℚ) ≤ right / 10 ^ exact.places :=
    div_le_div_of_nonneg_right (Nat.cast_le.mpr below) power.le
  have numbers (count : ℕ) : (ofUnits count above exact.places).number =
      (count * 10 ^ above : ℕ) / 10 ^ exact.places := by
    rw [number_ofUnits]
    push_cast
    rfl
  rw [number] at same
  rcases Nat.lt_or_ge (exact.mantissa / 10 ^ above) count with beyond | below
  · right
    apply toFloat_of_between denotes reads
    rw [numbers, numbers, ← same]
    exact .inr ⟨ordered (Nat.lt_mul_of_div_lt (Nat.lt_succ_self _) unit).le,
      ordered (Nat.mul_le_mul_right _ beyond)⟩
  · left
    apply toFloat_of_between denotes reads
    rw [numbers, numbers, ← same]
    exact .inl ⟨ordered (Nat.mul_le_mul_right _ below), ordered (Nat.div_mul_le_self _ _)⟩

/-- No multiple of a unit further left reads back. -/
def Unread (value : Float) (places above : ℕ) : Prop :=
  ∀ count farther, above < farther → (ofUnits count farther places).toFloat ≠ value

private theorem Unread.next {above : ℕ} (unread : Unread value exact.places (above + 1))
    (denotes : Denotes value .positive magnitude) (same : exact.number = magnitude)
    (below : (ofUnits (exact.mantissa / 10 ^ (above + 1)) (above + 1) exact.places).toFloat ≠ value)
    (beyond : (ofUnits (exact.mantissa / 10 ^ (above + 1) + 1) (above + 1) exact.places).toFloat ≠ value) :
    Unread value exact.places above := by
  intro count farther further reads
  rcases Nat.lt_or_ge (above + 1) farther with left | here
  · exact unread count farther left reads
  · obtain rfl : farther = above + 1 := by omega
    rcases toFloat_beside denotes same reads with found | found
    · exact below found
    · exact beyond found

/-- Past all the digits of a value a multiple of the unit is zero or at least twice as large. -/
private theorem unread_length (denotes : Denotes value .positive magnitude)
    (same : exact.number = magnitude)
    (some : magnitude ≠ 0) : Unread value exact.places (Nat.toDigits 10 exact.mantissa).length := by
  intro count farther further
  rcases Nat.eq_zero_or_pos count with rfl | counted
  · apply toFloat_ne_of_number_eq_zero denotes some
    rw [number_ofUnits, Nat.cast_zero, zero_mul, zero_div]
  · have digits : exact.mantissa < 10 ^ (Nat.toDigits 10 exact.mantissa).length :=
      (Nat.length_toDigits_le_iff (by decide) Nat.length_toDigits_pos).mp (le_refl _)
    have power : 10 ^ ((Nat.toDigits 10 exact.mantissa).length + 1) ≤ 10 ^ farther :=
      Nat.pow_le_pow_right (by decide) further
    have many : 2 * exact.mantissa ≤ count * 10 ^ farther := by
      rw [pow_succ] at power
      exact le_trans (by omega) (Nat.le_mul_of_pos_left _ counted)
    apply toFloat_ne_of_two_mul_le denotes some
    rw [number_ofUnits, ← same, number, mul_div_assoc']
    apply div_le_div_of_nonneg_right _ (by positivity)
    exact_mod_cast many

/-- The search ends at a multiple that reads back, with none further left: a place that it passes is one whose
multiples are unread. -/
theorem exists_shortestFrom (denotes : Denotes value .positive magnitude) (same : exact.number = magnitude)
    {above : ℕ} (unread : Unread value exact.places above) :
    ∃ count place, shortestFrom value exact above = ofUnits count place exact.places ∧
      (shortestFrom value exact above).toFloat = value ∧ Unread value exact.places place := by
  induction above with
  | zero => exact ⟨exact.mantissa, 0, (ofUnits_zero exact).symm, toFloat_of_number_eq denotes same, unread⟩
  | succ above ih =>
    simp only [shortestFrom, Nat.pow_eq]
    split_ifs with below preferred beyond
    · exact ⟨_, _, rfl, preferred.1, unread⟩
    · exact ⟨_, _, rfl, below, unread⟩
    · exact ⟨_, _, rfl, beyond, unread⟩
    · exact ih (unread.next denotes same below beyond)

/-! ## The result -/

/-- A decimal that reads back as a value and has no place to spare. -/
structure IsShortest (value : Float) (decimal : Decimal) : Prop where
  reads : decimal.toFloat = value
  trimmed : decimal.places ≠ 0 → decimal.mantissa % 10 ≠ 0
  fewest : ∀ other : Decimal, other.toFloat = value → decimal.places ≤ other.places

private theorem Unread.number_ne {places above : ℕ} (unread : Unread value places above)
    (denotes : Denotes value .positive magnitude) {decimal : Decimal} (reads : decimal.toFloat = value)
    (count : ℕ) {farther : ℕ} (further : above < farther) :
    (ofUnits count farther places).number ≠ decimal.number := by
  intro same
  apply unread count farther further
  rw [toFloat_eq_iff denotes] at reads ⊢
  rw [same, reads]

private theorem Unread.mod_ten_ne_zero {count above places : ℕ} (unread : Unread value places above)
    (denotes : Denotes value .positive magnitude)
    (reads : (ofUnits count above places).toFloat = value) : count % 10 ≠ 0 := by
  intro last
  have ten : count = count / 10 * 10 := by omega
  apply unread.number_ne denotes reads (count / 10) (Nat.lt_succ_self above)
  rw [number_ofUnits, number_ofUnits, pow_succ', ← mul_assoc]
  nth_rewrite 2 [ten]
  push_cast
  rfl

private theorem Unread.places_le {above places : ℕ} (unread : Unread value places above)
    (denotes : Denotes value .positive magnitude) {other : Decimal} (reads : other.toFloat = value) :
    places - above ≤ other.places := by
  by_contra fewer
  have left : above < places - other.places := by omega
  have split : places = other.places + (places - other.places) := by omega
  apply unread.number_ne denotes reads other.mantissa left
  rw [number_ofUnits, number]
  nth_rewrite 2 [split]
  rw [pow_add, mul_div_mul_right _ _ (by positivity)]

private theorem isShortest_ofUnits (denotes : Denotes value .positive magnitude) {count above places : ℕ}
    (reads : (ofUnits count above places).toFloat = value) (unread : Unread value places above) :
    IsShortest value (ofUnits count above places) := by
  rcases Nat.lt_or_ge above places with inside | outside
  · have result : ofUnits count above places = ⟨count, places - above⟩ := if_pos inside.le
    have trimmed := unread.mod_ten_ne_zero denotes reads
    rw [result] at reads ⊢
    exact ⟨reads, fun _ => trimmed, fun _ found => unread.places_le denotes found⟩
  · have none : (ofUnits count above places).places = 0 := by
      rw [ofUnits]
      split
      · exact Nat.sub_eq_zero_of_le outside
      · rfl
    exact ⟨reads, fun some => absurd none some, fun _ _ => none ▸ Nat.zero_le _⟩

/-- The decimal that is printed for a finite value is the shortest one of its magnitude. -/
theorem isShortest_shortest {sign : Sign} (denotes : Denotes value sign magnitude) :
    IsShortest value.abs (shortest value) := by
  have same := number_ofBinaryFraction_ofFloat denotes
  simp only [shortest]
  split
  · rename_i vanishes
    rw [number, vanishes, Nat.cast_zero, zero_div] at same
    have zero : (⟨0, 0⟩ : Decimal).number = magnitude := by
      rw [number, Nat.cast_zero, zero_div, same]
    exact ⟨toFloat_of_number_eq denotes.abs zero, fun some => absurd rfl some, fun _ _ => Nat.zero_le _⟩
  · rename_i filled
    have some : magnitude ≠ 0 := by
      rw [← same, number]
      have mantissa : 0 < (ofBinaryFraction (BinaryFraction.ofFloat value)).mantissa :=
        Nat.pos_of_ne_zero filled
      positivity
    obtain ⟨count, place, result, reads, unread⟩ :=
      exists_shortestFrom denotes.abs same (unread_length denotes.abs same some)
    rw [result] at reads ⊢
    exact isShortest_ofUnits denotes.abs reads unread

end LineCalc.Decimal
