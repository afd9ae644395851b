import LineCalc.Proofs.Rpn.Conversion
import LineCalc.Proofs.Rpn.Evaluation

/-!
# The order of an expression

An expression is converted to the postorder of its tree. Which operators wait is settled for loose
expressions already, and an expression is a loose one in which every run has one literal or group.
-/

set_option autoImplicit false

namespace LineCalc

/-- Operands and operators are all that a postorder has. -/
theorem Tree.paren_not_mem_postorder (tree : Tree) :
    .openParen ∉ tree.postorder ∧ .closeParen ∉ tree.postorder := by
  induction tree with
  | leaf literal => simp [postorder]
  | node operator left right leftIH rightIH => simp [postorder, leftIH, rightIH]

namespace Grammar

theorem Sum.literals_tree (sum : Sum) : sum.tree.literals = Token.literals sum.tokens := by
  rw [← sum.tree.literals_postorder, ← sum.postorder_loose, sum.loose.literals_postorder,
    sum.tokens_loose]

theorem Sum.ofTokens_tokens (sum : Sum) : Rpn.ofTokens sum.tokens = .ok sum.tree.postorder := by
  rw [← sum.tokens_loose, sum.loose.ofTokens_tokens, sum.postorder_loose]

/-- The tokens of an expression are converted to the postorder of its tree, whatever its literals are
and however many parentheses enclose its parts, and the postorder has no parenthesis. -/
theorem Sum.ofTokens_eq_postorder (sum : Sum) :
    Rpn.ofTokens sum.tokens = .ok sum.tree.postorder ∧
      .openParen ∉ sum.tree.postorder ∧ .closeParen ∉ sum.tree.postorder :=
  ⟨sum.ofTokens_tokens, sum.tree.paren_not_mem_postorder⟩

/-- Equal precedences associate to the left, and redundant parentheses change nothing: `8-(3)-2*4`. -/
example : Rpn.ofTokens [.number "8", .operator .minus, .openParen, .number "3", .closeParen,
    .operator .minus, .number "2", .operator .times, .number "4"] =
      .ok [.number "8", .number "3", .operator .minus, .number "2", .number "4", .operator .times,
        .operator .minus] := rfl

end Grammar

end LineCalc
