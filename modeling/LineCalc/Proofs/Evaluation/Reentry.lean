import LineCalc.Evaluation
import LineCalc.Proofs.Phrase.Absence

/-!
# Entering the tokens of a line again

The trace shows the tokens of a line with one space between neighbours. That text spells the same
tokens as the line, it has a slash when the line has one, and no question is found in it.
-/

set_option autoImplicit false

namespace LineCalc

namespace Token

theorem ofLine_listText {tokens : List Token}
    (shapes : ∀ literal ∈ literals tokens, isLiteral literal = true) :
    ofLine (listText tokens) = tokens :=
  (rendering_listText tokens).ofChars_eq shapes

theorem isLiteral_of_ofLine (line : String) :
    ∀ literal ∈ literals (ofLine line), isLiteral literal = true :=
  isLiteral_of_spells (spells_ofChars line.toList)

theorem ofLine_listText_ofLine (line : String) : ofLine (listText (ofLine line)) = ofLine line :=
  ofLine_listText (isLiteral_of_ofLine line)

private theorem slash_mem_listText_ofLine (line : String) :
    '/' ∈ (listText (ofLine line)).toList ↔ '/' ∈ line.toList := by
  have typed := slash_mem_iff_of_spells (spells_ofChars line.toList)
  have printed := slash_mem_iff_of_spells
    ((rendering_listText (ofLine line)).spells (isLiteral_of_ofLine line))
  exact printed.trans typed.symm

end Token

/-- Two lines with the same tokens are evaluated alike when both have a slash or neither has. -/
theorem evaluateExpression_congr (settings : Settings) {left right : String}
    (tokens : Token.ofLine left = Token.ofLine right)
    (slash : '/' ∈ left.toList ↔ '/' ∈ right.toList) :
    evaluateExpression settings left = evaluateExpression settings right := by
  have text : valueText settings left = valueText settings right := by
    funext value
    simp only [valueText, slash]
  simp only [evaluateExpression, tokens, text]

/-- The text of the tokens of a line without a question has the result of the line itself, with its
trace, and is rejected with the same error if the line is. It spells the same tokens, which holds of
every list of tokens whose literals can be typed, and it has a slash exactly when the line has one. -/
theorem evaluate_listText :
    (∀ tokens : List Token, (∀ literal ∈ Token.literals tokens, Token.isLiteral literal = true) →
      Token.ofLine (Token.listText tokens) = tokens) ∧
    (∀ line : String,
      '/' ∈ line.toList ↔ '/' ∈ (Token.listText (Token.ofLine line)).toList) ∧
    ∀ (settings : Settings) (line : String), Phrase.ofLine? line = none →
      evaluate settings (Token.listText (Token.ofLine line)) = evaluate settings line := by
  refine ⟨fun tokens => Token.ofLine_listText,
    fun line => (Token.slash_mem_listText_ofLine line).symm, ?_⟩
  intro settings line expression
  have printed : Phrase.ofLine? (Token.listText (Token.ofLine line)) = none :=
    Phrase.ofLine?_eq_none_of_rendering (Token.rendering_listText _) (Token.isLiteral_of_ofLine line)
  rw [evaluate, evaluate, expression, printed]
  exact evaluateExpression_congr settings (Token.ofLine_listText_ofLine line)
    (Token.slash_mem_listText_ofLine line)

theorem evaluate_listText_glued_fraction :
    Token.ofLine (Token.listText [.number "1/2.", .operator .divide]) =
        [.number "1/2.", .operator .divide] ∧
      Phrase.ofLine? "3/4x(2" = none ∧
      evaluate {} (Token.listText (Token.ofLine "3/4x(2")) = evaluate {} "3/4x(2" := by
  have expression : Phrase.ofLine? "3/4x(2" = none := by decide
  exact ⟨evaluate_listText.1 _ (by decide), expression, evaluate_listText.2.2 {} "3/4x(2" expression⟩

end LineCalc
