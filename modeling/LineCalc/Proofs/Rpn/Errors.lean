import LineCalc.Proofs.Rpn.Conversion
import LineCalc.Proofs.Rpn.Evaluation

/-!
# Errors on the way to a value

Conversion fails at a closing parenthesis only, and evaluation fails at a literal, at a parenthesis, at an
operator without operands or at the end. That a value is not finite is no error of either: a division by
zero has a value, and later operations take it in.
-/

set_option autoImplicit false

namespace LineCalc.Rpn

/-! ## Conversion -/

theorem Conversion.error_of_step {state : Conversion} {token : Token} {cause : EvalError}
    (failed : state.step token = .error cause) : cause = .unmatchedClose := by
  cases token with
  | number literal => cases failed
  | operator operator => cases failed
  | openParen => cases failed
  | closeParen =>
    rw [step] at failed
    split at failed
    · cases failed
      rfl
    · cases failed

theorem Conversion.error_of_run {state : Conversion} {tokens : List Token} {cause : EvalError}
    (failed : state.run tokens = .error cause) : cause = .unmatchedClose := by
  obtain ⟨_, _, _, _, _, _, refused⟩ := exists_of_foldlM_eq_error failed
  exact error_of_step refused

theorem error_of_ofTokens {tokens : List Token} {cause : EvalError}
    (failed : ofTokens tokens = .error cause) : cause = .unmatchedClose := by
  rw [ofTokens, bind_eq_error_iff] at failed
  rcases failed with ran | ⟨state, _, finished⟩
  · exact Conversion.error_of_run ran
  · cases finished

/-! ## Evaluation -/

/-- An error that is about the tokens and not about their value. -/
inductive IsSyntactic : EvalError → Prop where
  | invalidNumber (literal : String) : IsSyntactic (.invalidNumber literal)
  | missingOperand : IsSyntactic .missingOperand
  | emptyExpression : IsSyntactic .emptyExpression
  | surplusOperands (count : Nat) : IsSyntactic (.surplusOperands count)

theorem error_of_valueOf {literal : String} {cause : EvalError}
    (failed : Literal.valueOf literal = .error cause) : cause = .invalidNumber literal := by
  rw [Literal.valueOf] at failed
  split at failed
  · cases failed
  · cases failed
    rfl

/-- What a stack refuses, and with which error. -/
inductive Refuses (stack : List Float) : Token → EvalError → Prop where
  | number {literal : String} (unreadable : Literal.valueOf literal = .error (.invalidNumber literal)) :
      Refuses stack (.number literal) (.invalidNumber literal)
  | operator {operator : Operator} (few : stack.length < 2) :
      Refuses stack (.operator operator) .missingOperand
  | openParen : Refuses stack .openParen (.invalidNumber "(")
  | closeParen : Refuses stack .closeParen (.invalidNumber ")")

theorem step_eq_error_iff {stack : List Float} {token : Token} {cause : EvalError} :
    step stack token = .error cause ↔ Refuses stack token cause := by
  constructor
  · intro failed
    cases token with
    | number literal =>
      rw [step, bind_eq_error_iff] at failed
      rcases failed with unreadable | ⟨value, _, pushed⟩
      · obtain rfl := error_of_valueOf unreadable
        exact .number unreadable
      · cases pushed
    | operator operator =>
      rcases stack with _ | ⟨right, _ | ⟨left, rest⟩⟩
      · cases failed
        exact .operator (by simp)
      · cases failed
        exact .operator (by simp)
      · cases failed
    | openParen => cases stack <;> cases failed <;> exact .openParen
    | closeParen => cases stack <;> cases failed <;> exact .closeParen
  · intro refuses
    cases refuses with
    | number unreadable =>
      rw [step, unreadable]
      rfl
    | operator few =>
      rcases stack with _ | ⟨right, _ | ⟨left, rest⟩⟩
      · rfl
      · rfl
      · exact absurd few (by simp)
    | openParen => cases stack <;> rfl
    | closeParen => cases stack <;> rfl

theorem isSyntactic_of_step {stack : List Float} {token : Token} {cause : EvalError}
    (failed : step stack token = .error cause) : IsSyntactic cause := by
  cases step_eq_error_iff.mp failed with
  | number unreadable => exact .invalidNumber _
  | operator few => exact .missingOperand
  | openParen => exact .invalidNumber _
  | closeParen => exact .invalidNumber _

theorem isSyntactic_of_run {stack : List Float} {tokens : List Token} {cause : EvalError}
    (failed : run stack tokens = .error cause) : IsSyntactic cause := by
  obtain ⟨_, _, _, _, _, _, refused⟩ := exists_of_foldlM_eq_error failed
  exact isSyntactic_of_step refused

theorem isSyntactic_of_evaluate {tokens : List Token} {cause : EvalError}
    (failed : evaluate tokens = .error cause) : IsSyntactic cause := by
  rw [evaluate, bind_eq_error_iff] at failed
  rcases failed with ran | ⟨stack, _, counted⟩
  · exact isSyntactic_of_run ran
  · rcases stack with _ | ⟨value, _ | ⟨second, rest⟩⟩
    · cases counted
      exact .emptyExpression
    · cases counted
    · cases counted
      exact .surplusOperands _

end LineCalc.Rpn
