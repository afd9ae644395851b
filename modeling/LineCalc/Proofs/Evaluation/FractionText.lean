import LineCalc.Proofs.Evaluation.Stages
import LineCalc.Proofs.Fraction.Reproduction

/-!
# The fraction of a line with a slash

The value of a line is on the grid of its decimal places. When the search for a fraction goes as far as four
times the scale of the grid, the fraction that is shown is the value exactly, and it can be typed again.
-/

set_option autoImplicit false

namespace LineCalc

open Binary64

/-- A value with a text is a finite value after rounding, with the text that is made for it. -/
private theorem number_of_evaluate {settings : Settings} {line text : String} {value : Float}
    {trace : Trace}
    (evaluated : evaluate settings line = .ok { answer := .number value text, trace }) :
    ∃ raw, roundTo settings.decimals raw = value ∧ value.isFinite = true ∧
      valueText settings line value = .ok text := by
  cases evaluates_of_evaluate evaluated with
  | number _ _ _ rounded finite told => exact ⟨_, rounded, finite, told⟩

private theorem text_of_slash {settings : Settings} {line text : String} {value : Float}
    {fraction : Fraction}
    (slash : '/' ∈ line.toList) (told : valueText settings line value = .ok text)
    (shown : Fraction.approximate? value settings.maxDenominator = some fraction) :
    text = fraction.text := by
  rw [valueText, if_pos slash, shown] at told
  exact (Except.ok.inj told).symm

private theorem decimals_le {decimals : ℕ} {limit : ℕ} (reach : 4 * 10 ^ decimals ≤ limit)
    (bounded : limit ≤ 1000000) : decimals ≤ 5 := by
  by_contra many
  have power : 10 ^ 6 ≤ 10 ^ decimals := Nat.pow_le_pow_right (by decide) (by omega)
  omega

/-- The fraction shown for a line with a slash is the value of the line: the binary64 quotient of its two
integers is the value, and so is its text as a literal unless the value is negative. -/
theorem evaluate_fraction_exact {settings : Settings}
    (reach : 4 * 10 ^ settings.decimals ≤ settings.maxDenominator)
    (bounded : settings.maxDenominator ≤ 1000000) {line : String} (slash : '/' ∈ line.toList)
    {value : Float} {text : String} {trace : Trace}
    (evaluated : evaluate settings line = .ok { answer := .number value text, trace }) :
    ∃ fraction : Fraction, fraction.Spells text ∧ 1 ≤ fraction.denominator ∧
      (fraction.denominator : Int) ≤ settings.maxDenominator ∧
      Float.ofInt fraction.numerator / Float.ofNat fraction.denominator = value ∧
      (0 ≤ value → Literal.valueOf text = .ok value) := by
  obtain ⟨raw, rounded, finite, told⟩ := number_of_evaluate evaluated
  obtain ⟨limit, limited⟩ := Int.eq_ofNat_of_zero_le (le_trans (by positivity) reach)
  rw [limited] at reach bounded
  have reachNat : 4 * 10 ^ settings.decimals ≤ limit := by exact_mod_cast reach
  have few := decimals_le reachNat (by exact_mod_cast bounded)
  have small : limit < 2 ^ 53 := by omega
  have rawFinite : raw.isFinite = true := by
    rw [← isFinite_roundTo (le_trans few (by decide)) raw, rounded]
    exact finite
  obtain ⟨sign, magnitude, denotes, grid, signed⟩ :=
    exists_denotes_roundTo (le_trans few (by decide)) rawFinite
  rw [rounded] at denotes
  obtain ⟨fraction, shown, reproduces⟩ :=
    Fraction.exists_reproduces (le_trans few (by decide)) denotes signed grid reachNat small
  rw [← limited] at shown
  obtain rfl := text_of_slash slash told shown
  refine ⟨fraction, fraction.spells_text, reproduces.lower, ?_, reproduces.exact,
    reproduces.valueOf_text small⟩
  rw [limited]
  exact_mod_cast reproduces.upper

/-- The law at a third of one decimal place, with the search going no further than it must, and at the negative
of it. -/
theorem evaluate_fraction_exact_of_third :
    let settings : Settings := { decimals := 1, maxDenominator := 40 }
    (evaluate settings "2 - 5/3" = .ok {
      answer := .number 0.3 "3/10"
      trace := {
        tokens := [.number "2", .operator .minus, .number "5/3"]
        rpn := [.number "2", .number "5/3", .operator .minus] } } ∧
    ∃ fraction : Fraction, fraction.Spells "3/10" ∧ 1 ≤ fraction.denominator ∧
      (fraction.denominator : Int) ≤ 40 ∧
      Float.ofInt fraction.numerator / Float.ofNat fraction.denominator = 0.3 ∧
      Literal.valueOf "3/10" = .ok 0.3) ∧
    evaluate settings "5/3 - 2" = .ok {
      answer := .number (-0.3) "-3/10"
      trace := {
        tokens := [.number "5/3", .operator .minus, .number "2"]
        rpn := [.number "5/3", .number "2", .operator .minus] } } ∧
    ∃ fraction : Fraction, fraction.Spells "-3/10" ∧ 1 ≤ fraction.denominator ∧
      (fraction.denominator : Int) ≤ 40 ∧
      Float.ofInt fraction.numerator / Float.ofNat fraction.denominator = -0.3 := by
  intro settings
  have asked : Phrase.ofLine? "2 - 5/3" = none ∧ Phrase.ofLine? "5/3 - 2" = none := by decide
  have evaluated : evaluate settings "2 - 5/3" = .ok {
      answer := .number 0.3 "3/10"
      trace := {
        tokens := [.number "2", .operator .minus, .number "5/3"]
        rpn := [.number "2", .number "5/3", .operator .minus] } } := by
    rw [evaluate, asked.1]
    decide +kernel
  have opposite : evaluate settings "5/3 - 2" = .ok {
      answer := .number (-0.3) "-3/10"
      trace := {
        tokens := [.number "5/3", .operator .minus, .number "2"]
        rpn := [.number "5/3", .number "2", .operator .minus] } } := by
    rw [evaluate, asked.2]
    decide +kernel
  obtain ⟨fraction, text, lower, upper, exact, literal⟩ :=
    evaluate_fraction_exact (by decide) (by decide) (by decide) evaluated
  obtain ⟨negative, minus, least, greatest, same, _⟩ :=
    evaluate_fraction_exact (by decide) (by decide) (by decide) opposite
  exact ⟨⟨evaluated, fraction, text, lower, upper, exact, literal (by decide +kernel)⟩,
    opposite, negative, minus, least, greatest, same⟩

end LineCalc
