import LineCalc.Proofs.Evaluation.Stages

/-!
# The error of a value that is not finite

The only source of this error is the value of the line itself. Rounding neither makes nor hides an
infinite value, every finite value has a text, and the errors of conversion and evaluation are others.
-/

set_option autoImplicit false

namespace LineCalc

theorem evaluatePhrase_eq_nonFinite_iff {settings : Settings} (few : settings.decimals ≤ 22)
    (phrase : Phrase) :
    evaluatePhrase settings phrase = .error .nonFinite ↔ phrase.percentage.isFinite = false := by
  rw [evaluatePhrase, bind_eq_error_iff, requireFinite_eq_error_iff, isFinite_roundTo few]
  constructor
  · rintro (⟨infinite, _⟩ | ⟨value, _, failed⟩)
    · exact infinite
    · cases failed
  · intro infinite
    exact .inl ⟨infinite, rfl⟩

theorem evaluateExpression_eq_nonFinite_iff {settings : Settings} (few : settings.decimals ≤ 22)
    (line : String) :
    evaluateExpression settings line = .error .nonFinite ↔
      ∃ rpn value, Rpn.ofTokens (Token.ofLine line) = .ok rpn ∧ Rpn.evaluate rpn = .ok value ∧
        value.isFinite = false := by
  constructor
  · intro failed
    cases givenUp_of_evaluateExpression failed with
    | conversion unconverted => cases Rpn.error_of_ofTokens unconverted
    | evaluation converted unvalued => cases Rpn.isSyntactic_of_evaluate unvalued
    | rounding converted valued infinite =>
      rw [isFinite_roundTo few] at infinite
      exact ⟨_, _, converted, valued, infinite⟩
  · rintro ⟨rpn, value, converted, valued, infinite⟩
    rw [evaluateExpression, bind_eq_error_iff]
    refine .inr ⟨rpn, converted, ?_⟩
    rw [valued]
    have rounded : (roundTo settings.decimals value).isFinite = false := by
      rw [isFinite_roundTo few, infinite]
    change requireFinite (roundTo settings.decimals value) >>= _ = _
    rw [requireFinite_of_not_isFinite rounded]
    rfl

/-- A line has the error of a value that is not finite exactly when its value is not: rounding keeps what is
finite and no more, and every finite value has a fraction. -/
theorem evaluate_eq_nonFinite_iff (settings : Settings) (few : settings.decimals ≤ 22) :
    (∀ line, evaluate settings line = .error .nonFinite ↔
      (∃ phrase, Phrase.ofLine? line = some phrase ∧
        (phrase.part.toFloat / phrase.whole.toFloat * 100).isFinite = false) ∨
      (Phrase.ofLine? line = none ∧ ∃ rpn value, Rpn.ofTokens (Token.ofLine line) = .ok rpn ∧
        Rpn.evaluate rpn = .ok value ∧ value.isFinite = false)) ∧
    (∀ value, (roundTo settings.decimals value).isFinite = value.isFinite) ∧
    (∀ value, value.isFinite = true → ∀ maxDenominator,
      ∃ fraction, Fraction.approximate? value maxDenominator = some fraction) := by
  refine ⟨fun line => ?_, isFinite_roundTo few,
    fun value finite maxDenominator => Fraction.exists_approximate? finite maxDenominator⟩
  cases asked : Phrase.ofLine? line with
  | some phrase =>
    rw [evaluate, asked]
    simp only [Option.some.injEq, exists_eq_left', reduceCtorEq, false_and, or_false]
    exact evaluatePhrase_eq_nonFinite_iff few phrase
  | none =>
    rw [evaluate, asked]
    simp only [reduceCtorEq, false_and, exists_false, true_and, false_or]
    exact evaluateExpression_eq_nonFinite_iff few line

/-- The law on a division by zero, and at a value that overflows both the scale and the products. -/
theorem evaluate_eq_nonFinite_at_extremes :
    evaluate {} "2 - 1/0" = .error .nonFinite ∧ (roundTo 2 1e308).isFinite = true ∧
      ∃ fraction, Fraction.approximate? 1e308 5000 = some fraction := by
  obtain ⟨line, rounding, scan⟩ := evaluate_eq_nonFinite_iff {} (by decide)
  have finite : (1e308 : Float).isFinite = true := by decide +kernel
  refine ⟨(line "2 - 1/0").mpr (.inr ⟨by decide, ?_⟩), (rounding 1e308).trans finite,
    scan 1e308 finite 5000⟩
  exact ⟨[.number "2", .number "1/0", .operator .minus], 2 - 1 / 0, by decide +kernel, by decide +kernel,
    by decide +kernel⟩

end LineCalc
