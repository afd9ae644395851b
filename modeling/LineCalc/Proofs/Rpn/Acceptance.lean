import LineCalc.Proofs.Rpn.Conversion
import LineCalc.Proofs.Rpn.Evaluation

/-!
# Which tokens have a value

A list of tokens that is converted and then evaluated to a value has balanced parentheses, and the value
is that of a tree with the literals in the order in which they are written and with each operator once.
The tree need not be the one that is written: an operator works on whatever operands precede it in
reverse Polish order. So lists have a value that are no expressions, and the lists that have one are
the loose expressions whose operands suffice.
-/

set_option autoImplicit false

namespace LineCalc.Grammar

private theorem Factor.tokens_eq_append (factor : Factor) :
    ∃ (before : List Token) (last : Token),
      factor.tokens = before ++ [last] ∧ ∀ operator, last ≠ .operator operator := by
  cases factor with
  | literal literal => exact ⟨[], .number literal, rfl, nofun⟩
  | group sum => exact ⟨.openParen :: sum.tokens, .closeParen, rfl, nofun⟩

private theorem Product.tokens_eq_append (product : Product) :
    ∃ (before : List Token) (last : Token),
      product.tokens = before ++ [last] ∧ ∀ operator, last ≠ .operator operator := by
  cases product with
  | single factor => exact factor.tokens_eq_append
  | chain left operator multiplicative right =>
    obtain ⟨before, last, ends, operand⟩ := right.tokens_eq_append
    refine ⟨left.tokens ++ .operator operator :: before, last, ?_, operand⟩
    rw [Product.tokens, ends, List.append_assoc, List.cons_append]

private theorem Sum.tokens_eq_append (sum : Sum) :
    ∃ (before : List Token) (last : Token),
      sum.tokens = before ++ [last] ∧ ∀ operator, last ≠ .operator operator := by
  cases sum with
  | single product => exact product.tokens_eq_append
  | chain left operator additive right =>
    obtain ⟨before, last, ends, operand⟩ := right.tokens_eq_append
    refine ⟨left.tokens ++ .operator operator :: before, last, ?_, operand⟩
    rw [Sum.tokens, ends, List.append_assoc, List.cons_append]

theorem not_isExpression_append_operator (tokens : List Token) (operator : Operator) :
    ¬ IsExpression (tokens ++ [.operator operator]) := by
  intro expression
  obtain ⟨sum, spelled⟩ := expression
  obtain ⟨before, last, ends, operand⟩ := sum.tokens_eq_append
  obtain ⟨_, same⟩ := List.append_inj' (ends.symm.trans spelled) rfl
  exact operand operator (List.singleton_inj.mp same)

end LineCalc.Grammar

namespace LineCalc.Rpn

theorem exists_sum_of_value {tokens rpn : List Token} {value : Float}
    (converted : ofTokens tokens = .ok rpn) (evaluated : evaluate rpn = .ok value) :
    ∃ sum : Loose.Sum, sum.tokens = tokens ∧ sum.postorder = rpn := by
  have ran := evaluate_eq_ok_iff.mp evaluated
  exact Loose.exists_sum_of_ofTokens converted (not_mem_paren_of_run ran).1

/-- No operand is lost, repeated or moved on the way to a value, and no operator is lost or repeated. -/
theorem exists_tree_of_value {tokens rpn : List Token} {value : Float}
    (converted : ofTokens tokens = .ok rpn) (evaluated : evaluate rpn = .ok value) :
    Token.Balanced tokens ∧ ∃ tree : Tree,
      tree.literals = Token.literals tokens ∧
        tree.operators.Perm (Token.operators tokens) ∧ tree.value = .ok value := by
  obtain ⟨sum, rfl, rfl⟩ := exists_sum_of_value converted evaluated
  obtain ⟨tree, spelled, valued⟩ := evaluate_eq_ok_iff_tree.mp evaluated
  refine ⟨sum.balanced_tokens, tree, ?_, ?_, valued⟩
  · rw [← tree.literals_postorder, spelled, sum.literals_postorder]
  · rw [← tree.operators_postorder, spelled]
    exact sum.operators_postorder

/-- The law at `2*(3 4-)`, where the subtraction is written after both of its operands. -/
theorem exists_tree_of_value_postfix_group :
    Token.Balanced [.number "2", .operator .times, .openParen, .number "3", .number "4",
        .operator .minus, .closeParen] ∧
      ∃ tree : Tree, tree.literals = ["2", "3", "4"] ∧
        tree.operators.Perm [.times, .minus] ∧ tree.value = .ok (-2) := by
  have converted : ofTokens [.number "2", .operator .times, .openParen, .number "3", .number "4",
      .operator .minus, .closeParen] = .ok [.number "2", .number "3", .number "4",
      .operator .minus, .operator .times] := rfl
  have product : Decimal.toFloat ⟨2, 0⟩ * (Decimal.toFloat ⟨3, 0⟩ - Decimal.toFloat ⟨4, 0⟩) = -2 := by
    decide +kernel
  exact exists_tree_of_value converted (congrArg Except.ok product)

/-- Tokens have a value exactly when their literals are readable and they spell a loose expression in
which every operator finds two operands and one operand is left at the end. An expression is a loose
expression of this kind. -/
theorem hasValue_iff_loose (tokens : List Token) :
    ((∃ rpn value, ofTokens tokens = .ok rpn ∧ evaluate rpn = .ok value) ↔
        Readable tokens ∧ ∃ sum : Loose.Sum, sum.tokens = tokens ∧ sum.operands 0 = some 1) ∧
      ∀ expression : Grammar.Sum,
        ∃ sum : Loose.Sum, sum.tokens = expression.tokens ∧ sum.operands 0 = some 1 := by
  refine ⟨⟨?_, ?_⟩, ?_⟩
  · intro hasValue
    obtain ⟨rpn, value, converted, evaluated⟩ := hasValue
    obtain ⟨sum, rfl, rfl⟩ := exists_sum_of_value converted evaluated
    obtain ⟨readable, counted⟩ := (sum.counts_postorder [] 1).mp
      ⟨[value], evaluate_eq_ok_iff.mp evaluated, rfl⟩
    rw [Readable, sum.literals_postorder] at readable
    exact ⟨readable, sum, rfl, counted⟩
  · intro counts
    obtain ⟨readable, sum, rfl, counted⟩ := counts
    rw [Readable, ← sum.literals_postorder] at readable
    obtain ⟨result, ran, single⟩ := (sum.counts_postorder [] 1).mpr ⟨readable, counted⟩
    obtain ⟨value, rfl⟩ := List.length_eq_one_iff.mp single
    exact ⟨sum.postorder, value, sum.ofTokens_tokens, evaluate_eq_ok_iff.mpr ran⟩
  · intro expression
    exact ⟨expression.loose, expression.tokens_loose, expression.operands_loose 0⟩

/-- `3 4 +` has the value 7, although it is no expression. -/
theorem value_of_postfix_addition :
    ofTokens [.number "3", .number "4", .operator .plus] =
        .ok [.number "3", .number "4", .operator .plus] ∧
      evaluate [.number "3", .number "4", .operator .plus] = .ok 7 ∧
      ¬ Grammar.IsExpression [.number "3", .number "4", .operator .plus] := by
  have total : Decimal.toFloat ⟨3, 0⟩ + Decimal.toFloat ⟨4, 0⟩ = 7 := by
    decide +kernel
  exact ⟨rfl, congrArg Except.ok total,
    Grammar.not_isExpression_append_operator [.number "3", .number "4"] .plus⟩

end LineCalc.Rpn
