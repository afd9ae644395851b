import LineCalc.Decimal.Shortest
import LineCalc.Fraction
import LineCalc.Phrase
import LineCalc.Rounding
import LineCalc.Rpn.Conversion
import LineCalc.Rpn.Evaluation
import LineCalc.Token.Lexer

/-!
# Evaluating a line

A line is a percentage question or an expression, and the question is looked for first. The value is
rounded to the decimal places of the settings. It is shown as a fraction when the line has a slash
anywhere, and as a decimal otherwise. Nothing is kept from one line to the next.
-/

set_option autoImplicit false

namespace LineCalc

/-- How results are rounded, and how far the search for a fraction goes. -/
structure Settings where
  decimals : Nat := 2
  maxDenominator : Int := 5000
  deriving DecidableEq, Repr

/-- The tokens of an expression as they were typed and in reverse Polish order. A percentage question
has neither. -/
structure Trace where
  tokens : List Token := []
  rpn : List Token := []
  deriving DecidableEq, Repr

/-- A result as it is shown: a percentage, or a value with the text that shows it. -/
inductive Answer where
  | percentage (value : Float)
  | number (value : Float) (text : String)
  deriving DecidableEq, Repr

namespace Answer

def value : Answer → Float
  | percentage value => value
  | number value _ => value

def text : Answer → String
  | percentage value => decimalText value
  | number _ text => text

def line : Answer → String
  | percentage value => "= " ++ decimalText value ++ "%"
  | number value text => "= " ++ text ++ " (≈ " ++ decimalText value ++ ")"

end Answer

structure Evaluation where
  answer : Answer
  trace : Trace
  deriving DecidableEq, Repr

def requireFinite (value : Float) : Except EvalError Float :=
  if value.isFinite then .ok value else .error .nonFinite

theorem requireFinite_of_isFinite {value : Float} (finite : value.isFinite = true) :
    requireFinite value = .ok value :=
  if_pos finite

theorem requireFinite_of_not_isFinite {value : Float} (infinite : value.isFinite = false) :
    requireFinite value = .error .nonFinite :=
  if_neg (Bool.eq_false_iff.mp infinite)

/-- The text of a value on a line without a question. -/
def valueText (settings : Settings) (line : String) (value : Float) : Except EvalError String :=
  if '/' ∈ line.toList then
    match Fraction.approximate? value settings.maxDenominator with
    | some fraction => .ok fraction.text
    | none => .error .nonFinite
  else
    .ok (decimalText value)

def evaluatePhrase (settings : Settings) (phrase : Phrase) : Except EvalError Evaluation := do
  let value ← requireFinite (roundTo settings.decimals phrase.percentage)
  return { answer := .percentage value, trace := {} }

def evaluateExpression (settings : Settings) (line : String) : Except EvalError Evaluation := do
  let tokens := Token.ofLine line
  let rpn ← Rpn.ofTokens tokens
  let value ← requireFinite (roundTo settings.decimals (← Rpn.evaluate rpn))
  let text ← valueText settings line value
  return { answer := .number value text, trace := { tokens, rpn } }

def evaluate (settings : Settings) (line : String) : Except EvalError Evaluation :=
  match Phrase.ofLine? line with
  | some phrase => evaluatePhrase settings phrase
  | none => evaluateExpression settings line

end LineCalc
