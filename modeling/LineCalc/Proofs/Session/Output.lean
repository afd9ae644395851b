import LineCalc.Proofs.Evaluation.Reentry
import LineCalc.Proofs.Evaluation.ResultLine
import LineCalc.Proofs.Rpn.Literals
import LineCalc.Proofs.Session.Run

/-!
# What a session prints

A session prints answers, tokens and errors. All that gets into them from the line that was typed is the
text of its tokens, and that has no newline, so that each line is printed as one.
-/

set_option autoImplicit false

namespace LineCalc

private theorem newline_not_mem_append {first second : String} :
    '\n' ∉ (first ++ second).toList ↔ '\n' ∉ first.toList ∧ '\n' ∉ second.toList := by
  rw [String.toList_append, List.mem_append, not_or]

/-! ## Tokens -/

namespace Token

private theorem newline_not_mem_text {tokens : List Token}
    (shapes : ∀ literal ∈ literals tokens, isLiteral literal = true) {token : Token}
    (member : token ∈ tokens) : '\n' ∉ token.text.toList := by
  intro inside
  rcases number_or_ofSymbol? token with ⟨literal, rfl⟩ | ⟨symbol, letter, read⟩
  · have shape := shapes literal (mem_literals_iff.mpr member)
    exact absurd (continuesNumber_of_isLiteral shape inside) (by decide)
  · rw [letter] at inside
    obtain rfl := List.mem_singleton.mp inside
    exact absurd (mem_symbols_of_ofSymbol? read) (by decide)

private theorem mem_text_of_mem_listText {tokens : List Token} {character : Char}
    (member : character ∈ (listText tokens).toList) :
    character = ' ' ∨ ∃ token ∈ tokens, character ∈ token.text.toList := by
  induction tokens with
  | nil => cases member
  | cons token tokens ih =>
    cases tokens with
    | nil =>
      rw [toList_listText_singleton] at member
      exact .inr ⟨token, List.mem_cons_self, member⟩
    | cons next tokens =>
      rw [toList_listText_cons_cons, List.mem_append, List.mem_cons] at member
      rcases member with inside | blank | behind
      · exact .inr ⟨token, List.mem_cons_self, inside⟩
      · exact .inl blank
      · rcases ih behind with blank | ⟨other, found, inside⟩
        · exact .inl blank
        · exact .inr ⟨other, List.mem_cons_of_mem token found, inside⟩

private theorem newline_not_mem_listText {tokens : List Token}
    (shapes : ∀ literal ∈ literals tokens, isLiteral literal = true) :
    '\n' ∉ (listText tokens).toList := by
  intro member
  rcases mem_text_of_mem_listText member with blank | ⟨token, found, inside⟩
  · exact absurd blank (by decide)
  · exact newline_not_mem_text shapes found inside

end Token

private theorem isLiteral_of_ofTokens {line : String} {rpn : List Token}
    (converted : Rpn.ofTokens (Token.ofLine line) = .ok rpn) :
    ∀ literal ∈ Token.literals rpn, Token.isLiteral literal = true := by
  rw [Rpn.literals_ofTokens converted]
  exact Token.isLiteral_of_ofLine line

/-! ## Answers -/

private theorem newline_not_mem_digits (integer : ℕ) : '\n' ∉ Nat.toDigits 10 integer := by
  intro member
  exact absurd (Nat.isDigit_of_mem_toDigits (by decide) (by decide) member) (by decide)

private theorem newline_not_mem_decimalText {value : Float} (finite : value.isFinite = true) :
    '\n' ∉ (decimalText value).toList := by
  have inside : '\n' ∉ (Decimal.shortest value).numeral.text :=
    fun member => absurd (Decimal.Numeral.continuesNumeral_of_mem_text _ member) (by decide)
  obtain ⟨sign, magnitude, denotes⟩ := Binary64.exists_denotes finite
  cases sign with
  | positive =>
    rw [decimalText_of_positive denotes, String.toList_ofList]
    exact inside
  | negative =>
    rw [decimalText_of_negative denotes, String.toList_ofList, List.mem_cons, not_or]
    exact ⟨by decide, inside⟩

private theorem newline_not_mem_fraction (fraction : Fraction) : '\n' ∉ fraction.text.toList := by
  have digits := newline_not_mem_digits
  rw [Fraction.text, String.toList_ofList]
  split <;> simp [digits]

private theorem newline_not_mem_valueText {settings : Settings} {line text : String} {value : Float}
    (finite : value.isFinite = true) (told : valueText settings line value = .ok text) :
    '\n' ∉ text.toList := by
  rw [valueText] at told
  split at told
  · split at told
    · cases told
      exact newline_not_mem_fraction _
    · cases told
  · cases told
    exact newline_not_mem_decimalText finite

private theorem newline_not_mem_answer {settings : Settings} {line : String} {evaluation : Evaluation}
    (evaluates : Evaluates settings line evaluation) : '\n' ∉ evaluation.answer.line.toList := by
  cases evaluates with
  | percentage asked rounded finite =>
    simp only [Answer.line, newline_not_mem_append, newline_not_mem_decimalText finite]
    decide
  | number unasked converted valued rounded finite told =>
    simp only [Answer.line, newline_not_mem_append, newline_not_mem_decimalText finite,
      newline_not_mem_valueText finite told]
    decide

/-! ## Errors -/

private theorem EvalError.newline_not_mem_message {cause : EvalError}
    (named : ∀ literal, cause = .invalidNumber literal → '\n' ∉ literal.toList) :
    '\n' ∉ cause.message.toList := by
  cases cause with
  | invalidNumber literal =>
    have opening : '\n' ∉ "nombre invalide: '".toList := by decide
    have closing : '\n' ∉ "'".toList := by decide
    exact newline_not_mem_append.mpr ⟨newline_not_mem_append.mpr ⟨opening, named literal rfl⟩, closing⟩
  | missingOperand => decide
  | unmatchedClose => decide
  | emptyExpression => decide
  | surplusOperands count =>
    have opening : '\n' ∉ "expression invalide: ".toList := by decide
    have closing : '\n' ∉ " valeurs sans opérateur".toList := by decide
    have digits : '\n' ∉ (toString count).toList := by
      rw [Nat.toString_eq_ofList_toDigits, String.toList_ofList]
      exact newline_not_mem_digits count
    exact newline_not_mem_append.mpr ⟨newline_not_mem_append.mpr ⟨opening, digits⟩, closing⟩
  | nonFinite => decide

/-- The literal that an error names is the text of a token. -/
private theorem newline_not_mem_of_invalidNumber {settings : Settings} {line literal : String}
    (failed : evaluate settings line = .error (.invalidNumber literal)) : '\n' ∉ literal.toList := by
  rw [evaluate] at failed
  split at failed
  · rw [evaluatePhrase, bind_eq_error_iff, requireFinite_eq_error_iff] at failed
    rcases failed with ⟨_, other⟩ | ⟨_, _, answered⟩
    · cases other
    · cases answered
  · cases givenUp_of_evaluateExpression failed with
    | conversion unconverted => cases Rpn.error_of_ofTokens unconverted
    | evaluation converted unvalued =>
      obtain ⟨token, member, rfl⟩ := Rpn.exists_text_of_evaluate unvalued
      exact Token.newline_not_mem_text (isLiteral_of_ofTokens converted) member

/-! ## Lines -/

private theorem newline_not_mem_resultLines {settings : Settings} {line : String} {evaluation : Evaluation}
    (evaluates : Evaluates settings line evaluation) (session : Session) :
    ∀ shown ∈ session.resultLines evaluation, '\n' ∉ shown.toList := by
  have answer := newline_not_mem_answer evaluates
  intro shown member
  rcases List.mem_cons.mp member with rfl | step
  · exact answer
  · cases evaluates with
    | percentage => simp [Token.listText] at step
    | number _ converted =>
      have tokens := Token.newline_not_mem_listText (Token.isLiteral_of_ofLine line)
      have rpn := Token.newline_not_mem_listText (isLiteral_of_ofTokens converted)
      dsimp only at step
      split at step
      · rcases List.mem_cons.mp step with rfl | step
        · exact newline_not_mem_append.mpr ⟨by decide, tokens⟩
        · obtain rfl := List.mem_singleton.mp step
          exact newline_not_mem_append.mpr ⟨by decide, rpn⟩
      · cases step

/-- Whatever line is typed, what is printed for it are whole lines. -/
theorem Session.newline_not_mem_step (session : Session) (line : String) :
    ∀ shown ∈ (session.step line).1.lines, '\n' ∉ shown.toList := by
  have steps := session.steps_step line
  generalize session.step line = stepped at steps ⊢
  cases steps with
  | quit => exact nofun
  | result stays evaluated =>
    exact newline_not_mem_resultLines (evaluates_of_evaluate evaluated) session
  | error stays failed =>
    intro shown member
    obtain rfl := List.mem_singleton.mp member
    refine newline_not_mem_append.mpr ⟨by decide, EvalError.newline_not_mem_message ?_⟩
    rintro literal rfl
    exact newline_not_mem_of_invalidNumber failed

end LineCalc
