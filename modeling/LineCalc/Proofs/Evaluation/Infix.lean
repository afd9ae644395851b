import LineCalc.Evaluation
import LineCalc.Proofs.Fraction.Reproduction
import LineCalc.Proofs.Phrase.Absence
import LineCalc.Proofs.Rounding.Nearest
import LineCalc.Proofs.Rpn.Postorder

/-!
# Evaluating infix text

What a line is answered when it renders an expression: the error of its leftmost unreadable literal, or
the error of a value that is not finite, or the rounded value of its tree.
-/

set_option autoImplicit false

namespace LineCalc

/-- The leftmost literal of a tree that is no number. -/
def Tree.firstUnreadable? (tree : Tree) : Option String :=
  tree.literals.find? fun literal => (Literal.ofChars? literal.toList).isNone

private theorem Tree.firstUnreadable?_node (operator : Operator) (left right : Tree) :
    (Tree.node operator left right).firstUnreadable? =
      left.firstUnreadable?.or right.firstUnreadable? :=
  List.find?_append

theorem Tree.exists_value (tree : Tree) (readable : tree.firstUnreadable? = none) :
    ∃ value, tree.value = .ok value := by
  induction tree with
  | leaf text =>
    cases read : Literal.ofChars? text.toList with
    | none => simp [firstUnreadable?, literals, read] at readable
    | some found => exact ⟨found.toFloat, by rw [value, Literal.valueOf, read]⟩
  | node operator left right leftValue rightValue =>
    rw [firstUnreadable?_node, Option.or_eq_none_iff] at readable
    obtain ⟨first, leftValued⟩ := leftValue readable.1
    obtain ⟨second, rightValued⟩ := rightValue readable.2
    refine ⟨operator.apply first second, ?_⟩
    rw [value_node, leftValued, rightValued]
    rfl

theorem Tree.value_of_unreadable (tree : Tree) {literal : String}
    (unreadable : tree.firstUnreadable? = some literal) :
    tree.value = .error (.invalidNumber literal) := by
  induction tree with
  | leaf text =>
    cases read : Literal.ofChars? text.toList with
    | none =>
      have same : text = literal := by simpa [firstUnreadable?, literals, read] using unreadable
      rw [value, Literal.valueOf, read, same]
    | some found => simp [firstUnreadable?, literals, read] at unreadable
  | node operator left right leftError rightError =>
    rw [firstUnreadable?_node] at unreadable
    cases first : left.firstUnreadable? with
    | some found =>
      rw [first, Option.some_or] at unreadable
      rw [value_node, leftError (first.trans unreadable)]
      rfl
    | none =>
      rw [first, Option.none_or] at unreadable
      obtain ⟨leftValue, leftValued⟩ := left.exists_value first
      rw [value_node, leftValued, rightError unreadable]
      rfl

/-- A finite value has a text. On a line with a slash it is that of a fraction. -/
theorem exists_valueText (settings : Settings) (line : String) {value : Float}
    (finite : value.isFinite = true) :
    ∃ text, valueText settings line value = .ok text ∧
      ('/' ∉ line.toList → text = decimalText value) ∧
      ('/' ∈ line.toList → ∃ fraction,
        Fraction.approximate? value settings.maxDenominator = some fraction ∧
          fraction.Spells text) := by
  unfold valueText
  by_cases slash : '/' ∈ line.toList
  · obtain ⟨fraction, nearest⟩ := Fraction.exists_approximate? finite settings.maxDenominator
    rw [if_pos slash, nearest]
    exact ⟨fraction.text, rfl, fun absent => absurd slash absent,
      fun _ => ⟨fraction, rfl, fraction.spells_text⟩⟩
  · rw [if_neg slash]
    exact ⟨decimalText value, rfl, fun _ => rfl, fun present => absurd present slash⟩

/-- What a line is answered that renders an expression, for as many decimal places as the scale has
exactly. Such a line asks no question and is read as the tokens of the expression, so the value of its tree
decides. -/
theorem evaluate_rendering (settings : Settings) (few : settings.decimals ≤ 22) (sum : Grammar.Sum)
    (shapes : ∀ literal ∈ sum.tree.literals, Token.isLiteral literal = true) (line : String)
    (rendering : Token.Rendering sum.tokens line.toList) :
    (∀ literal, sum.tree.firstUnreadable? = some literal →
      evaluate settings line = .error (.invalidNumber literal)) ∧
    (sum.tree.firstUnreadable? = none → ∃ value, sum.tree.value = .ok value ∧
      (value.isFinite = false → evaluate settings line = .error .nonFinite) ∧
      (value.isFinite = true → ∃ text,
        evaluate settings line = .ok {
          answer := .number (roundTo settings.decimals value) text
          trace := { tokens := sum.tokens, rpn := sum.tree.postorder } } ∧
        ('/' ∉ line.toList → text = decimalText (roundTo settings.decimals value)) ∧
        ('/' ∈ line.toList → ∃ fraction,
          Fraction.approximate? (roundTo settings.decimals value) settings.maxDenominator =
              some fraction ∧
            fraction.Spells text))) := by
  rw [sum.literals_tree] at shapes
  have expression : Phrase.ofLine? line = none := Phrase.ofLine?_eq_none_of_rendering rendering shapes
  have tokens : Token.ofLine line = sum.tokens := rendering.ofChars_eq shapes
  rw [evaluate, expression]
  simp only [evaluateExpression, tokens, sum.ofTokens_tokens, bind, Except.bind,
    Rpn.evaluate_postorder]
  refine ⟨?_, ?_⟩
  · intro literal unreadable
    rw [sum.tree.value_of_unreadable unreadable]
  · intro readable
    obtain ⟨value, valued⟩ := sum.tree.exists_value readable
    have rounded := isFinite_roundTo few value
    refine ⟨value, valued, ?_, ?_⟩
    · intro infinite
      rw [infinite] at rounded
      simp only [valued, requireFinite, rounded]
      rfl
    · intro finite
      rw [finite] at rounded
      obtain ⟨text, shown, decimal, fraction⟩ := exists_valueText settings line rounded
      refine ⟨text, ?_, decimal, fraction⟩
      simp only [valued, requireFinite, rounded, if_true, shown]
      rfl

/-- The law at a line with all five operators and several kinds of blanks, whose first slash belongs to a literal
and whose second is an operator. -/
theorem evaluate_rendering_two_slashes :
    evaluate { decimals := 1, maxDenominator := 2 } "9/2 -\t6\u00a0/(1+ 3)*50 %2.5" = .ok {
      answer := .number (-2995.5) "-5991/2"
      trace := {
        tokens := [.number "9/2", .operator .minus, .number "6", .operator .divide, .openParen,
          .number "1", .operator .plus, .number "3", .closeParen, .operator .times, .number "50",
          .operator .percent, .number "2.5"]
        rpn := [.number "9/2", .number "6", .number "1", .number "3", .operator .plus,
          .operator .divide, .number "50", .operator .times, .number "2.5", .operator .percent,
          .operator .minus] } } := by
  let group : Grammar.Sum :=
    .chain (.single (.single (.literal "1"))) .plus .plus (.single (.literal "3"))
  let share : Grammar.Product :=
    .chain (.chain (.chain (.single (.literal "6")) .divide .divide (.group group)) .times .times
      (.literal "50")) .percent .percent (.literal "2.5")
  let sum : Grammar.Sum := .chain (.single (.single (.literal "9/2"))) .minus .minus share
  have rendering : Token.Rendering sum.tokens "9/2 -\t6\u00a0/(1+ 3)*50 %2.5".toList :=
    .token nofun (.blank (by decide) (.token nofun (.blank (by decide)
      (.token (fun _ => ⟨'\u00a0', rfl, by decide⟩) (.blank (by decide) (.token nofun (.token nofun
        (.token nofun (.token nofun (.blank (by decide) (.token nofun (.token nofun (.token nofun
          (.token nofun (.blank (by decide) (.token nofun (.token nofun .nil)))))))))))))))))
  obtain ⟨value, valued, _, shown⟩ := (evaluate_rendering { decimals := 1, maxDenominator := 2 }
    (by decide) sum (by decide) "9/2 -\t6\u00a0/(1+ 3)*50 %2.5" rendering).2 (by decide)
  have total : Decimal.toFloat ⟨9, 0⟩ / Decimal.toFloat ⟨2, 0⟩ -
      Decimal.toFloat ⟨6, 0⟩ / (Decimal.toFloat ⟨1, 0⟩ + Decimal.toFloat ⟨3, 0⟩) *
        Decimal.toFloat ⟨50, 0⟩ / Decimal.toFloat ⟨25, 1⟩ * 100 = -2995.5 := by
    decide +kernel
  have worked : sum.tree.value = .ok (-2995.5) := congrArg Except.ok total
  obtain rfl := Except.ok.inj (valued.symm.trans worked)
  have rounded : roundTo 1 (-2995.5) = -2995.5 := by decide +kernel
  have nearest : Fraction.approximate? (-2995.5) 2 = some ⟨-5991, 2⟩ := by decide +kernel
  obtain ⟨text, evaluated, _, fraction⟩ := shown (by decide +kernel)
  obtain ⟨found, approximated, spelled⟩ := fraction (by decide)
  change Fraction.approximate? (roundTo 1 (-2995.5)) 2 = some found at approximated
  rw [rounded, nearest] at approximated
  obtain rfl := Option.some.inj approximated
  rw [evaluated]
  change Except.ok (Evaluation.mk (.number (roundTo 1 (-2995.5)) _) _) = _
  rw [rounded]
  cases spelled with
  | nonneg sign => exact absurd sign (by decide)
  | negative => rfl

end LineCalc
