import LineCalc.Evaluation
import LineCalc.Proofs.Phrase.Wording

/-!
# The question and the operator

A percentage can be asked for in words or with the operator `%`. Both read the same two numbers, divide
the part by the whole and round alike, so they fail together or show the same value.
-/

set_option autoImplicit false

namespace LineCalc

open Decimal

/-- The question in its usual wording. -/
def Wording.usual (whole part : Numeral) : Wording where
  before := []
  what := .plain "what"
  toPercent := .space
  percent := .plain "percent"
  toPreposition := .space
  preposition := .plain "of"
  toWhole := .space
  whole := whole
  toVerb := .space
  verb := .plain "is"
  toPart := .space
  part := part
  after := []
  unasked := unasked_nil
  ended := endsNumeral_nil

private theorem ofLine?_question (whole part : Numeral) :
    Phrase.ofLine? ("what percent of " ++ String.ofList whole.text ++ " is " ++
      String.ofList part.text) = some ⟨whole.value, part.value⟩ := by
  have line : "what percent of " ++ String.ofList whole.text ++ " is " ++ String.ofList part.text =
      (Wording.usual whole part).line := by
    rw [← String.toList_inj]
    simp only [Wording.line, Wording.usual, Text.Cased.plain, Text.Gap.space, String.toList_append,
      String.toList_ofList]
    simp
  rw [line]
  exact (Wording.usual whole part).ofLine?_of_spaces rfl rfl

/-- The tokens of a percentage that is asked for with the operator. -/
def percentTokens (whole part : Numeral) : List Token :=
  [.number (String.ofList part.text), .operator .percent, .number (String.ofList whole.text)]

/-- The same tokens in reverse Polish order. -/
def percentRpn (whole part : Numeral) : List Token :=
  [.number (String.ofList part.text), .number (String.ofList whole.text), .operator .percent]

private theorem listText_percentTokens (whole part : Numeral) :
    String.ofList part.text ++ " % " ++ String.ofList whole.text =
      Token.listText (percentTokens whole part) := by
  have symbol : " % " = " " ++ (Token.operator .percent).text ++ " " := by decide
  simp only [Token.listText, percentTokens, List.map_cons, List.map_nil, String.intercalate_cons_cons,
    String.intercalate_singleton, symbol, ← String.append_assoc]
  rfl

private theorem isLiteral_of_mem_percentTokens {whole part : Numeral} (wholeLeading : whole.whole ≠ [])
    (partLeading : part.whole ≠ []) :
    ∀ literal ∈ Token.literals (percentTokens whole part), Token.isLiteral literal = true := by
  intro literal member
  simp only [percentTokens, Token.literals, List.mem_cons, List.not_mem_nil, or_false] at member
  rcases member with rfl | rfl
  · exact part.isLiteral_text partLeading
  · exact whole.isLiteral_text wholeLeading

private theorem evaluate_percentRpn (whole part : Numeral) :
    Rpn.evaluate (percentRpn whole part) = .ok (part.value.toFloat / whole.value.toFloat * 100) := by
  simp only [percentRpn, Rpn.evaluate, Rpn.run, List.foldlM_cons, List.foldlM_nil, Rpn.step,
    Numeral.valueOf_text, bind, Except.bind, pure, Except.pure, Rpn.result, Operator.apply]

private theorem slash_not_mem_listText_percentTokens {whole part : Numeral} :
    '/' ∉ (Token.listText (percentTokens whole part)).toList := by
  have numeral : ∀ numeral : Numeral, '/' ∉ numeral.text := by
    intro numeral member
    exact absurd (numeral.continuesNumeral_of_mem_text member) (by decide)
  rw [← listText_percentTokens]
  simp only [String.toList_append, String.toList_ofList, List.mem_append, not_or]
  exact ⟨⟨numeral part, by decide⟩, numeral whole⟩

private theorem evaluate_question (settings : Settings) (whole part : Numeral) :
    evaluate settings ("what percent of " ++ String.ofList whole.text ++ " is " ++
        String.ofList part.text) =
      (requireFinite (roundTo settings.decimals (part.value.toFloat / whole.value.toFloat * 100))).map
        fun value => { answer := .percentage value, trace := {} } := by
  rw [evaluate, ofLine?_question whole part]
  rfl

private theorem evaluate_operator (settings : Settings) {whole part : Numeral}
    (wholeLeading : whole.whole ≠ [])
    (partLeading : part.whole ≠ []) :
    evaluate settings (String.ofList part.text ++ " % " ++ String.ofList whole.text) =
      (requireFinite (roundTo settings.decimals (part.value.toFloat / whole.value.toFloat * 100))).map
        fun value => {
          answer := .number value (Answer.percentage value).text
          trace := { tokens := percentTokens whole part, rpn := percentRpn whole part } } := by
  rw [listText_percentTokens]
  have rendering := Token.rendering_listText (percentTokens whole part)
  have shapes := isLiteral_of_mem_percentTokens wholeLeading partLeading
  have unasked : Phrase.ofLine? (Token.listText (percentTokens whole part)) = none :=
    Phrase.ofLine?_eq_none_of_rendering rendering shapes
  have tokens : Token.ofLine (Token.listText (percentTokens whole part)) = percentTokens whole part :=
    rendering.ofChars_eq shapes
  have rpn : Rpn.ofTokens (percentTokens whole part) = .ok (percentRpn whole part) := rfl
  rw [evaluate, unasked]
  simp only [evaluateExpression, tokens, rpn, evaluate_percentRpn, valueText,
    if_neg slash_not_mem_listText_percentTokens, bind, Except.bind]
  rfl

/-- A percentage has the same value and text in words and with the operator, or fails in both. -/
theorem evaluate_percentage (settings : Settings) (whole part : Numeral)
    (wholeLeading : whole.whole ≠ []) (partLeading : part.whole ≠ []) :
    let question := "what percent of " ++ String.ofList whole.text ++ " is " ++ String.ofList part.text
    let expression := String.ofList part.text ++ " % " ++ String.ofList whole.text
    let value := roundTo settings.decimals (part.value.toFloat / whole.value.toFloat * 100)
    (value.isFinite = false ∧ evaluate settings question = .error .nonFinite ∧
        evaluate settings expression = .error .nonFinite) ∨
      (value.isFinite = true ∧
        evaluate settings question = .ok { answer := .percentage value, trace := {} } ∧
        evaluate settings expression = .ok {
          answer := .number value (Answer.percentage value).text
          trace := { tokens := percentTokens whole part, rpn := percentRpn whole part } }) := by
  intro question expression value
  have asked := evaluate_question settings whole part
  have typed := evaluate_operator settings wholeLeading partLeading
  cases finite : value.isFinite with
  | false =>
    rw [requireFinite_of_not_isFinite finite] at asked typed
    exact .inl ⟨rfl, asked, typed⟩
  | true =>
    rw [requireFinite_of_isFinite finite] at asked typed
    exact .inr ⟨rfl, asked, typed⟩

/-- The law at numbers with a point. -/
theorem evaluate_percentage_of_hundredths :
    evaluate {} "what percent of 0.03 is 1." = .ok { answer := .percentage 3333.33, trace := {} } ∧
      evaluate {} "1. % 0.03" = .ok {
        answer := .number 3333.33 "3333.33"
        trace := {
          tokens := [.number "1.", .operator .percent, .number "0.03"]
          rpn := [.number "1.", .number "0.03", .operator .percent] } } := by
  let whole : Numeral := {
    whole := ['0']
    fraction? := some ['0', '3']
    digits := List.all_eq_true.mp (by decide)
    filled := nofun }
  let part : Numeral := {
    whole := ['1']
    fraction? := some []
    digits := List.all_eq_true.mp (by decide)
    filled := nofun }
  have rounded : roundTo 2 (part.value.toFloat / whole.value.toFloat * 100) = 3333.33 := by
    decide +kernel
  have text : (Answer.percentage 3333.33).text = "3333.33" := by decide +kernel
  have law := evaluate_percentage {} whole part nofun nofun
  simp only [rounded] at law
  rcases law with ⟨infinite, _⟩ | ⟨_, asked, shown⟩
  · exact absurd infinite (by decide +kernel)
  · rw [text] at shown
    exact ⟨asked, shown⟩

end LineCalc
