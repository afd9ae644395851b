import LineCalc.Literal
import LineCalc.Token.Basic

/-!
# Evaluating reverse Polish order

A number puts its value on a stack, and an operator replaces the two topmost values by its own. The
result is the single value that is left.
-/

set_option autoImplicit false

namespace LineCalc.Rpn

/-- Takes in one token. The right operand of an operator is on top of its left operand. -/
def step : List Float → Token → Except EvalError (List Float)
  | stack, .number literal => return (← Literal.valueOf literal) :: stack
  | right :: left :: stack, .operator operator => .ok (operator.apply left right :: stack)
  | _, .operator _ => .error .missingOperand
  | _, .openParen => .error (.invalidNumber Token.openParen.text)
  | _, .closeParen => .error (.invalidNumber Token.closeParen.text)

def run (stack : List Float) (tokens : List Token) : Except EvalError (List Float) :=
  tokens.foldlM step stack

def result : List Float → Except EvalError Float
  | [] => .error .emptyExpression
  | [value] => .ok value
  | stack => .error (.surplusOperands stack.length)

/-- The value of a list of tokens in reverse Polish order. -/
def evaluate (tokens : List Token) : Except EvalError Float :=
  run [] tokens >>= result

end LineCalc.Rpn
