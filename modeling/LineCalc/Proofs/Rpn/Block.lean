import LineCalc.Proofs.Decimal.Numeral
import LineCalc.Proofs.Rpn.Conversion
import LineCalc.Proofs.Rpn.Evaluation

/-!
# Blocks of tokens

A conversion never comes back to what it has released. So tokens that leave what waits as it is have a
place of their own in the result, and they can be exchanged for any others of this kind with the same
effect on every stack, wherever they stand and whatever is wrong around them. Groups are of this kind:
one is converted to what it encloses, independently of its context. And a fraction literal has the effect
of a group that divides its two sides.
-/

set_option autoImplicit false

namespace LineCalc.Rpn

namespace Conversion

/-! ## What is released already -/

/-- The state with further tokens released before all others, the latest first. -/
def behind (base : List Token) (state : Conversion) : Conversion :=
  { state with released := state.released ++ base }

private theorem release_append (released base : List Token) (items : List Pending) :
    release (released ++ base) items = release released items ++ base :=
  (List.append_assoc _ _ _).symm

theorem step_behind (base : List Token) (state : Conversion) (token : Token) :
    (state.behind base).step token = (state.step token).map (behind base) := by
  cases token with
  | number literal => rfl
  | operator operator =>
    simp only [step, behind, release_append]
    rfl
  | openParen => rfl
  | closeParen =>
    simp only [step, behind, release_append]
    split <;> rfl

/-- What is released already has no influence on a conversion. -/
theorem run_behind (base : List Token) (state : Conversion) (tokens : List Token) :
    (state.behind base).run tokens = (state.run tokens).map (behind base) := by
  induction tokens generalizing state with
  | nil => rfl
  | cons token rest ih =>
    simp only [run, List.foldlM_cons, step_behind] at ih ⊢
    cases state.step token with
    | error cause => rfl
    | ok next => exact ih next

private theorem finish_behind (base : List Token) (state : Conversion) :
    (state.behind base).finish = base.reverse ++ state.finish := by
  simp only [finish, behind, release_append, List.reverse_append]

/-! ## Blocks -/

/-- The tokens release `output` whatever waits, and leave what waits as it is. -/
def Delivers (tokens output : List Token) : Prop :=
  ∀ state : Conversion,
    state.run tokens = .ok { state with released := output.reverse ++ state.released }

private theorem delivers_number (literal : String) : Delivers [.number literal] [.number literal] :=
  fun _ => rfl

/-- A group delivers the postorder of what it encloses. -/
theorem delivers_group (sum : Loose.Sum) :
    Delivers (.openParen :: sum.tokens ++ [.closeParen]) sum.postorder :=
  fun state => (Loose.Run.group .empty sum).run_tokens state.released state.pending

end Conversion

open Conversion (Delivers)

/-- What a block delivers stands between what was released before it and what is released later, and
neither depends on the block. -/
theorem ofTokens_of_delivers {block output : List Token} (delivers : Delivers block output)
    (before after : List Token) :
    ofTokens (before ++ block ++ after) = do
      let state ← Conversion.start.run before
      let last ← Conversion.run { state with released := [] } after
      return state.released.reverse ++ output ++ last.finish := by
  rw [ofTokens, List.append_assoc, Conversion.run_append]
  cases Conversion.start.run before with
  | error cause => rfl
  | ok state =>
    have delivered : state.run (block ++ after) =
        (Conversion.run { state with released := [] } after).map
          (Conversion.behind (output.reverse ++ state.released)) := by
      rw [Conversion.run_append_of_ok (delivers state), ← Conversion.run_behind]
      rfl
    simp only [bind, Except.bind, delivered]
    cases Conversion.run { state with released := [] } after with
    | error cause => rfl
    | ok last =>
      simp only [Except.map, Conversion.finish_behind, List.reverse_append, List.reverse_reverse]

private theorem evaluate_congr {first second : List Token}
    (same : ∀ stack, run stack first = run stack second)
    (before after : List Token) :
    evaluate (before ++ first ++ after) = evaluate (before ++ second ++ after) := by
  simp only [evaluate, run_append, same]

/-- Blocks that deliver tokens with the same effect on every stack can be exchanged in any context. -/
theorem evaluate_ofTokens_congr {first second firstOutput secondOutput : List Token}
    (firstDelivers : Delivers first firstOutput) (secondDelivers : Delivers second secondOutput)
    (same : ∀ stack, run stack firstOutput = run stack secondOutput) (before after : List Token) :
    (ofTokens (before ++ first ++ after) >>= evaluate) =
      (ofTokens (before ++ second ++ after) >>= evaluate) := by
  rw [ofTokens_of_delivers firstDelivers, ofTokens_of_delivers secondDelivers]
  cases Conversion.start.run before with
  | error cause => rfl
  | ok state =>
    simp only [bind, Except.bind]
    cases Conversion.run { state with released := [] } after with
    | error cause => rfl
    | ok last => exact evaluate_congr same _ _

/-- Blocks that deliver the same tokens are converted alike in any context. -/
theorem ofTokens_congr {first second output : List Token} (firstDelivers : Delivers first output)
    (secondDelivers : Delivers second output) (before after : List Token) :
    ofTokens (before ++ first ++ after) = ofTokens (before ++ second ++ after) := by
  rw [ofTokens_of_delivers firstDelivers, ofTokens_of_delivers secondDelivers]

/-! ## Groups -/

/-- A group is converted to what it encloses, and its place in a larger list depends on nothing else: another
group that encloses tokens with the same conversion can stand there instead, whatever is wrong inside the
groups or around them. -/
theorem ofTokens_group {inner : List Token} (balanced : Token.Balanced inner) :
    ofTokens (.openParen :: inner ++ [.closeParen]) = ofTokens inner ∧
      ∀ other : List Token, Token.Balanced other → ofTokens other = ofTokens inner →
        ∀ before after : List Token,
          ofTokens (before ++ (.openParen :: inner ++ [.closeParen]) ++ after) =
            ofTokens (before ++ (.openParen :: other ++ [.closeParen]) ++ after) := by
  obtain ⟨sum, rfl⟩ := Loose.balanced_iff_exists_sum.mp balanced
  have converted := sum.ofTokens_tokens
  constructor
  · let group : Loose.Sum := .single (.single (.group .empty sum))
    rw [converted]
    exact group.ofTokens_tokens
  · intro other otherBalanced same before after
    obtain ⟨otherSum, rfl⟩ := Loose.balanced_iff_exists_sum.mp otherBalanced
    rw [converted, otherSum.ofTokens_tokens, Except.ok.injEq] at same
    have delivers := Conversion.delivers_group otherSum
    rw [same] at delivers
    exact ofTokens_congr (Conversion.delivers_group sum) delivers before after

/-- The law for `(3 4-)`, which stands for `(3-4)` behind `2*`, and before a parenthesis that closes nothing,
where both are refused. -/
theorem ofTokens_group_of_juxtaposed :
    ofTokens (.openParen :: [.number "3", .number "4", .operator .minus] ++ [.closeParen]) =
        .ok [.number "3", .number "4", .operator .minus] ∧
      ofTokens [.number "2", .operator .times, .openParen, .number "3", .number "4", .operator .minus,
        .closeParen] =
        ofTokens [.number "2", .operator .times, .openParen, .number "3", .operator .minus, .number "4",
          .closeParen] ∧
      ofTokens [.openParen, .number "3", .number "4", .operator .minus, .closeParen, .closeParen] =
        .error .unmatchedClose := by
  have three := Token.balanced_number "3"
  have four := Token.balanced_number "4"
  have minus := Token.balanced_operator .minus
  have balanced : Token.Balanced [.number "3", .number "4", .operator .minus] :=
    three.append (four.append minus)
  have other : Token.Balanced [.number "3", .operator .minus, .number "4"] :=
    three.append (minus.append four)
  obtain ⟨converted, exchanged⟩ := ofTokens_group balanced
  exact ⟨converted.trans rfl, exchanged _ other rfl [.number "2", .operator .times] [],
    (exchanged _ other rfl [] [.closeParen]).trans rfl⟩

/-! ## Fractions -/

theorem run_fraction {numerator denominator : Decimal.Numeral} (stack : List Float) :
    run stack [.number (String.ofList (numerator.text ++ '/' :: denominator.text))] =
      run stack [.number (String.ofList numerator.text), .number (String.ofList denominator.text),
        .operator .divide] := by
  simp only [run, List.foldlM_cons, List.foldlM_nil, step, Decimal.Numeral.valueOf_text_slash_text,
    Decimal.Numeral.valueOf_text, bind, Except.bind, pure, Except.pure, Operator.apply]

/-- A fraction literal is worth the division of its two sides in parentheses, with the same value or the
same error, whatever stands before and after it. -/
theorem evaluate_ofTokens_fraction (before after : List Token) {numerator denominator : String}
    {numeratorValue denominatorValue : Float} (numeratorWhole : '/' ∉ numerator.toList)
    (numeratorRead : Literal.valueOf numerator = .ok numeratorValue)
    (denominatorWhole : '/' ∉ denominator.toList)
    (denominatorRead : Literal.valueOf denominator = .ok denominatorValue) :
    (ofTokens (before ++ [.number (numerator ++ "/" ++ denominator)] ++ after) >>= evaluate) =
      (ofTokens (before ++ [.openParen, .number numerator, .operator .divide, .number denominator,
        .closeParen] ++ after) >>= evaluate) := by
  obtain ⟨above, rfl, _⟩ := Decimal.Numeral.exists_of_valueOf numeratorWhole numeratorRead
  obtain ⟨below, rfl, _⟩ := Decimal.Numeral.exists_of_valueOf denominatorWhole denominatorRead
  have joined : String.ofList above.text ++ "/" ++ String.ofList below.text =
      String.ofList (above.text ++ '/' :: below.text) := by
    rw [← String.toList_inj]
    simp
  let division : Loose.Sum := .single (.chain (.single (.literal .empty (String.ofList above.text)))
    .divide .divide (.literal .empty (String.ofList below.text)))
  rw [joined]
  exact evaluate_ofTokens_congr (Conversion.delivers_number _) (Conversion.delivers_group division)
    run_fraction before after

/-- The law at `6 / 1.5/.5 - 1`, where the literal is the divisor of an operator that binds as tightly as
the division inside it. -/
theorem evaluate_ofTokens_fraction_as_divisor :
    (ofTokens ([.number "6", .operator .divide] ++ [.number ("1.5" ++ "/" ++ ".5")] ++
        [.operator .minus, .number "1"]) >>= evaluate) = .ok 1 := by
  have numeratorRead : Literal.valueOf "1.5" = .ok (Decimal.toFloat ⟨15, 1⟩) := rfl
  have denominatorRead : Literal.valueOf ".5" = .ok (Decimal.toFloat ⟨5, 1⟩) := rfl
  have exchanged := evaluate_ofTokens_fraction [.number "6", .operator .divide]
    [.operator .minus, .number "1"] (by decide) numeratorRead (by decide) denominatorRead
  have total : Operator.apply .minus (Operator.apply .divide (Decimal.toFloat ⟨6, 0⟩)
      (Operator.apply .divide (Decimal.toFloat ⟨15, 1⟩) (Decimal.toFloat ⟨5, 1⟩)))
        (Decimal.toFloat ⟨1, 0⟩) = 1 := by
    decide +kernel
  exact exchanged.trans (congrArg Except.ok total)

end LineCalc.Rpn
