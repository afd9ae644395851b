import LineCalc.Proofs.Rpn.Errors

/-!
# The outcome of an evaluation

The height of the stack is the number of the literals taken so far less that of the operators. So the
counts before a token say whether it is refused, the first token that is refused gives the error, and
where none is the counts of the whole list decide between its value and an error.
-/

set_option autoImplicit false

namespace LineCalc.Rpn

/-! ## Tokens that are refused -/

/-- What is wrong with a token that comes after `before`, if anything. -/
def refusal? (before : List Token) : Token → Option EvalError
  | .number literal =>
    match Literal.valueOf literal with
    | .ok _ => none
    | .error _ => some (.invalidNumber literal)
  | .operator _ =>
    if (Token.literals before).length < (Token.operators before).length + 2 then
      some .missingOperand
    else
      none
  | .openParen => some (.invalidNumber "(")
  | .closeParen => some (.invalidNumber ")")

/-- What is wrong with the token at a position, if anything. -/
def offence? (tokens : List Token) (position : Nat) : Option EvalError :=
  tokens[position]?.bind (refusal? (tokens.take position))

private theorem offence?_append {before : List Token} (after : List Token) {position : Nat}
    (inside : position < before.length) :
    offence? (before ++ after) position = offence? before position := by
  rw [offence?, offence?, List.getElem?_append_left inside,
    List.take_append_of_le_length (Nat.le_of_lt inside)]

private theorem offence?_length (before : List Token) (token : Token) (after : List Token) :
    offence? (before ++ token :: after) before.length = refusal? before token := by
  rw [offence?, List.getElem?_append_right (Nat.le_refl _), Nat.sub_self, List.take_left]
  rfl

private theorem exists_of_offence? {tokens : List Token} {position : Nat} {cause : EvalError}
    (offends : offence? tokens position = some cause) :
    ∃ before token after, tokens = before ++ token :: after ∧ before.length = position ∧
      refusal? before token = some cause := by
  obtain ⟨token, found, refused⟩ := Option.bind_eq_some_iff.mp offends
  obtain ⟨inside, rfl⟩ := List.getElem?_eq_some_iff.mp found
  refine ⟨tokens.take position, tokens[position], tokens.drop (position + 1), ?_, ?_, refused⟩
  · rw [← List.drop_eq_getElem_cons inside, List.take_append_drop]
  · exact List.length_take_of_le (Nat.le_of_lt inside)

/-! ## The height of the stack -/

/-- The stack has one value for each literal that no operator has joined to another, and there is always
such a literal once anything was taken. -/
structure Height (taken : List Token) (stack : List Float) : Prop where
  balance : stack.length + (Token.operators taken).length = (Token.literals taken).length
  filled : taken ≠ [] → stack ≠ []

private theorem height_nil : Height [] [] where
  balance := rfl
  filled := fun taken => absurd rfl taken

theorem Height.step {taken : List Token} {stack next : List Float} {token : Token}
    (height : Height taken stack) (stepped : Rpn.step stack token = .ok next) :
    Height (taken ++ [token]) next := by
  have balance := height.balance
  cases token with
  | number literal =>
    obtain ⟨value, _, rfl⟩ := step_number_eq_ok_iff.mp stepped
    refine ⟨?_, fun _ => List.cons_ne_nil value stack⟩
    simp only [Token.literals_append, Token.operators_append, Token.literals, Token.operators,
      List.length_append, List.length_cons, List.length_nil]
    omega
  | operator operator =>
    obtain ⟨left, right, rest, rfl, rfl⟩ := step_operator_eq_ok_iff.mp stepped
    refine ⟨?_, fun _ => List.cons_ne_nil _ rest⟩
    simp only [Token.literals_append, Token.operators_append, Token.literals, Token.operators,
      List.length_append, List.length_cons, List.length_nil] at balance ⊢
    omega
  | openParen => exact absurd rfl (not_paren_of_step stepped).1
  | closeParen => exact absurd rfl (not_paren_of_step stepped).2

theorem height_of_run {tokens : List Token} {stack : List Float} (ran : run [] tokens = .ok stack) :
    Height tokens stack :=
  foldlM_prefix_induction Height (fun _ _ _ _ height => height.step) ran height_nil

/-- The counts before a token tell whether the stack refuses it. -/
theorem Height.refuses_iff {taken : List Token} {stack : List Float} {token : Token} {cause : EvalError}
    (height : Height taken stack) : Refuses stack token cause ↔ refusal? taken token = some cause := by
  have balance := height.balance
  constructor
  · intro refuses
    cases refuses with
    | number unreadable => simp only [refusal?, unreadable]
    | operator few => exact if_pos (by omega)
    | openParen => rfl
    | closeParen => rfl
  · intro refused
    cases token with
    | number literal =>
      cases read : Literal.valueOf literal with
      | ok value => simp [refusal?, read] at refused
      | error first =>
        obtain rfl : .invalidNumber literal = cause := by simpa [refusal?, read] using refused
        exact .number (error_of_valueOf read ▸ read)
    | operator operator =>
      simp only [refusal?, Option.ite_none_right_eq_some, Option.some.injEq] at refused
      obtain ⟨few, rfl⟩ := refused
      exact .operator (by omega)
    | openParen =>
      cases refused
      exact .openParen
    | closeParen =>
      cases refused
      exact .closeParen

/-! ## The outcome -/

/-- A token that is refused after tokens that were taken gives its error to the whole evaluation. -/
theorem evaluate_of_refusal? {before : List Token} {stack : List Float} {token : Token}
    {cause : EvalError} (ran : run [] before = .ok stack)
    (refused : refusal? before token = some cause) (after : List Token) :
    evaluate (before ++ token :: after) = .error cause := by
  have failed := step_eq_error_iff.mpr ((height_of_run ran).refuses_iff.mpr refused)
  have later : run stack (token :: after) = .error cause := by
    rw [run, List.foldlM_cons, failed]
    rfl
  rw [evaluate, run_append, ran]
  simp only [bind, Except.bind, later]

private theorem exists_run_of_unoffending {tokens : List Token}
    (unoffending : ∀ position < tokens.length, offence? tokens position = none) :
    ∃ stack, run [] tokens = .ok stack := by
  cases ran : run [] tokens with
  | ok stack => exact ⟨stack, rfl⟩
  | error cause =>
    obtain ⟨before, token, after, stack, rfl, earlier, stepped⟩ := exists_of_foldlM_eq_error ran
    have refused := (height_of_run earlier).refuses_iff.mp (step_eq_error_iff.mp stepped)
    rw [← offence?_length before token after, unoffending before.length (by simp)] at refused
    cases refused

private theorem result_of_two_le_length {stack : List Float} (several : 2 ≤ stack.length) :
    result stack = .error (.surplusOperands stack.length) := by
  rcases stack with _ | ⟨first, _ | ⟨second, rest⟩⟩
  · cases several
  · simp at several
  · rfl

/-- The first token that offends gives the error. Where none does, there are at least as many literals as
operators: as many only if there is nothing at all, one more if there is a value, and otherwise the rest
is the number of surplus operands. -/
theorem evaluate_outcome (tokens : List Token) :
    (∀ position cause, offence? tokens position = some cause →
      (∀ earlier < position, offence? tokens earlier = none) → evaluate tokens = .error cause) ∧
    ((∀ position, offence? tokens position = none) →
      ∃ count, (Token.literals tokens).length = (Token.operators tokens).length + count ∧
        (count = 0 → tokens = [] ∧ evaluate tokens = .error .emptyExpression) ∧
        (count = 1 → ∃ value, evaluate tokens = .ok value) ∧
        (2 ≤ count → evaluate tokens = .error (.surplusOperands count))) := by
  constructor
  · intro position cause offends first
    obtain ⟨before, token, after, rfl, rfl, refused⟩ := exists_of_offence? offends
    obtain ⟨stack, ran⟩ := exists_run_of_unoffending fun earlier inside =>
      (offence?_append (token :: after) inside).symm.trans (first earlier inside)
    exact evaluate_of_refusal? ran refused after
  · intro unoffending
    obtain ⟨stack, ran⟩ := exists_run_of_unoffending fun position _ => unoffending position
    have height := height_of_run ran
    have outcome : evaluate tokens = result stack := by
      rw [evaluate, ran]
      rfl
    refine ⟨stack.length, ?_, ?_, ?_, ?_⟩
    · rw [Nat.add_comm, height.balance]
    · intro none
      obtain rfl := List.length_eq_zero_iff.mp none
      exact ⟨Classical.byContradiction fun taken => height.filled taken rfl, outcome⟩
    · intro single
      obtain ⟨value, rfl⟩ := List.length_eq_one_iff.mp single
      exact ⟨value, outcome⟩
    · exact fun several => outcome.trans (result_of_two_le_length several)

/-- The law where the first of three offences is an operator, and where there is none and one operand too
many. -/
theorem evaluate_outcome_of_each_kind :
    evaluate [.number "1", .operator .plus, .openParen, .number "1//2"] = .error .missingOperand ∧
      evaluate [.number "1", .number "2", .number "3", .operator .minus] =
        .error (.surplusOperands 2) := by
  refine ⟨(evaluate_outcome _).1 1 .missingOperand rfl (by decide), ?_⟩
  obtain ⟨count, balance, _, _, surplus⟩ := (evaluate_outcome
    [.number "1", .number "2", .number "3", .operator .minus]).2 fun position =>
      match position with
      | 0 | 1 | 2 | 3 => rfl
      | _ + 4 => rfl
  obtain rfl : 2 = count := by
    simp only [Token.literals, Token.operators, List.length_cons, List.length_nil] at balance
    omega
  exact surplus (by decide)

end LineCalc.Rpn
