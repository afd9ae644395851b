import LineCalc.Proofs.Evaluation.Infix
import LineCalc.Proofs.Rpn.Errors

/-!
# The stages of a line

A line with a result has passed every stage: the question, or the tokens with their conversion, value and
text. An expression without a result was given up at one of them, though never for want of a text. The
tokens of a value are never without a text either, so a trace that has none is that of a question.
-/

set_option autoImplicit false

namespace LineCalc

theorem requireFinite_eq_ok_iff {value result : Float} :
    requireFinite value = .ok result ↔ value.isFinite = true ∧ value = result := by
  cases finite : value.isFinite with
  | false => simp [requireFinite_of_not_isFinite finite]
  | true => simp [requireFinite_of_isFinite finite]

theorem requireFinite_eq_error_iff {value : Float} {cause : EvalError} :
    requireFinite value = .error cause ↔ value.isFinite = false ∧ cause = .nonFinite := by
  cases finite : value.isFinite with
  | false => simp [requireFinite_of_not_isFinite finite, eq_comm]
  | true => simp [requireFinite_of_isFinite finite]

theorem valueText_ne_error (settings : Settings) (line : String) {value : Float}
    (finite : value.isFinite = true) (cause : EvalError) :
    valueText settings line value ≠ .error cause := by
  obtain ⟨text, shown, _⟩ := exists_valueText settings line finite
  intro untold
  rw [shown] at untold
  cases untold

/-! ## Results -/

/-- What a line with a result went through: rounding and the check that the value is finite in any case,
and before them the question, or the conversion and the evaluation of the tokens. -/
inductive Evaluates (settings : Settings) (line : String) : Evaluation → Prop where
  | percentage {phrase : Phrase} {value : Float} (asked : Phrase.ofLine? line = some phrase)
      (rounded : roundTo settings.decimals phrase.percentage = value) (finite : value.isFinite = true) :
      Evaluates settings line { answer := .percentage value, trace := {} }
  | number {rpn : List Token} {raw value : Float} {text : String}
      (unasked : Phrase.ofLine? line = none)
      (converted : Rpn.ofTokens (Token.ofLine line) = .ok rpn) (valued : Rpn.evaluate rpn = .ok raw)
      (rounded : roundTo settings.decimals raw = value) (finite : value.isFinite = true)
      (told : valueText settings line value = .ok text) :
      Evaluates settings line {
        answer := .number value text
        trace := { tokens := Token.ofLine line, rpn } }

theorem evaluates_of_evaluate {settings : Settings} {line : String} {evaluation : Evaluation}
    (evaluated : evaluate settings line = .ok evaluation) : Evaluates settings line evaluation := by
  rw [evaluate] at evaluated
  cases asked : Phrase.ofLine? line with
  | some phrase =>
    rw [asked] at evaluated
    obtain ⟨value, required, answered⟩ := bind_eq_ok_iff.mp evaluated
    obtain ⟨finite, rounded⟩ := requireFinite_eq_ok_iff.mp required
    cases answered
    exact .percentage asked rounded (rounded ▸ finite)
  | none =>
    rw [asked] at evaluated
    obtain ⟨rpn, converted, later⟩ := bind_eq_ok_iff.mp evaluated
    obtain ⟨raw, valued, later⟩ := bind_eq_ok_iff.mp later
    obtain ⟨value, required, later⟩ := bind_eq_ok_iff.mp later
    obtain ⟨text, told, answered⟩ := bind_eq_ok_iff.mp later
    obtain ⟨finite, rounded⟩ := requireFinite_eq_ok_iff.mp required
    cases answered
    exact .number asked converted valued rounded (rounded ▸ finite) told

/-! ## Errors -/

/-- Where an expression without a result was given up. -/
inductive GivenUp (settings : Settings) (line : String) : EvalError → Prop where
  | conversion {cause : EvalError} (unconverted : Rpn.ofTokens (Token.ofLine line) = .error cause) :
      GivenUp settings line cause
  | evaluation {rpn : List Token} {cause : EvalError}
      (converted : Rpn.ofTokens (Token.ofLine line) = .ok rpn) (unvalued : Rpn.evaluate rpn = .error cause) :
      GivenUp settings line cause
  | rounding {rpn : List Token} {raw : Float} (converted : Rpn.ofTokens (Token.ofLine line) = .ok rpn)
      (valued : Rpn.evaluate rpn = .ok raw) (infinite : (roundTo settings.decimals raw).isFinite = false) :
      GivenUp settings line .nonFinite

theorem givenUp_of_evaluateExpression {settings : Settings} {line : String} {cause : EvalError}
    (failed : evaluateExpression settings line = .error cause) : GivenUp settings line cause := by
  rw [evaluateExpression, bind_eq_error_iff] at failed
  rcases failed with unconverted | ⟨rpn, converted, later⟩
  · exact .conversion unconverted
  rw [bind_eq_error_iff] at later
  rcases later with unvalued | ⟨raw, valued, later⟩
  · exact .evaluation converted unvalued
  rw [bind_eq_error_iff, requireFinite_eq_error_iff] at later
  rcases later with ⟨infinite, rfl⟩ | ⟨value, required, later⟩
  · exact .rounding converted valued infinite
  obtain ⟨finite, rfl⟩ := requireFinite_eq_ok_iff.mp required
  rw [bind_eq_error_iff] at later
  rcases later with untold | ⟨text, _, failed⟩
  · exact absurd untold (valueText_ne_error settings line finite _)
  · cases failed

/-! ## The text of a trace -/

private theorem Token.text_eq_empty_of_listText {token : Token} {tokens : List Token}
    (empty : listText (token :: tokens) = "") : token.text = "" := by
  cases tokens with
  | nil =>
    rw [← String.toList_inj, toList_listText_singleton] at empty
    exact String.toList_inj.mp empty
  | cons next tokens =>
    rw [← String.toList_inj, toList_listText_cons_cons] at empty
    exact absurd empty (List.append_ne_nil_of_right_ne_nil _ (List.cons_ne_nil _ _))

private theorem Token.eq_number_of_text_eq_empty {token : Token} (empty : token.text = "") :
    token = .number "" := by
  cases token with
  | number literal => exact congrArg Token.number empty
  | operator operator => exact absurd empty (by cases operator <;> decide)
  | openParen => exact absurd empty (by decide)
  | closeParen => exact absurd empty (by decide)

/-- Tokens that have a value have a text: a literal without a character is no number. -/
theorem Rpn.listText_ne_empty {rpn : List Token} {value : Float} (valued : evaluate rpn = .ok value) :
    Token.listText rpn ≠ "" := by
  intro empty
  rw [evaluate_eq_ok_iff] at valued
  cases rpn with
  | nil => cases valued
  | cons token rest =>
    obtain ⟨stack, stepped, _⟩ := run_cons_eq_ok_iff.mp valued
    rw [Token.eq_number_of_text_eq_empty (Token.text_eq_empty_of_listText empty)] at stepped
    obtain ⟨value, read, _⟩ := step_number_eq_ok_iff.mp stepped
    cases read

end LineCalc
