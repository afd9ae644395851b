/-!
# Evaluation errors

The reasons why a line has no result, and the wording of each.
-/

set_option autoImplicit false

namespace LineCalc

inductive EvalError where
  /-- A literal that is no number, or a parenthesis where a number belongs. -/
  | invalidNumber (literal : String)
  /-- An operator that finds fewer than two values. -/
  | missingOperand
  /-- A closing parenthesis that no opening one precedes. -/
  | unmatchedClose
  | emptyExpression
  /-- More than one value is left, with no operator to join them. -/
  | surplusOperands (count : Nat)
  /-- The result is infinite or not a number. -/
  | nonFinite
  deriving DecidableEq, Repr

def EvalError.message : EvalError → String
  | .invalidNumber literal => "nombre invalide: '" ++ literal ++ "'"
  | .missingOperand => "expression invalide: opérande manquante"
  | .unmatchedClose => "expression invalide: parenthèse fermante sans ouvrante"
  | .emptyExpression => "expression invalide: expression vide"
  | .surplusOperands count => "expression invalide: " ++ toString count ++ " valeurs sans opérateur"
  | .nonFinite => "division par zéro (résultat non fini)"

end LineCalc
