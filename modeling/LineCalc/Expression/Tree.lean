import LineCalc.Literal
import LineCalc.Token.Basic

/-!
# Expression trees

The structure of an expression once precedence and parentheses have been settled: literals joined
two by two by operators. Its literals are read from left to right, so the leftmost unreadable one is
the one an error names.
-/

set_option autoImplicit false

namespace LineCalc

inductive Tree where
  | leaf (literal : String)
  | node (operator : Operator) (left right : Tree)
  deriving DecidableEq, Repr

namespace Tree

/-- The tokens of a tree with every operator after its operands. -/
def postorder : Tree → List Token
  | leaf literal => [.number literal]
  | node operator left right => left.postorder ++ right.postorder ++ [.operator operator]

def literals : Tree → List String
  | leaf literal => [literal]
  | node _ left right => left.literals ++ right.literals

/-- The operators, each after those of its operands. -/
def operators : Tree → List Operator
  | leaf _ => []
  | node operator left right => left.operators ++ right.operators ++ [operator]

/-- The value of a tree. The left operand is evaluated first. What `%` gives is the percentage that the left
value is of the right one. -/
def value : Tree → Except EvalError Float
  | leaf literal => Literal.valueOf literal
  | node .plus left right => return (← left.value) + (← right.value)
  | node .minus left right => return (← left.value) - (← right.value)
  | node .times left right => return (← left.value) * (← right.value)
  | node .divide left right => return (← left.value) / (← right.value)
  | node .percent left right => return (← left.value) / (← right.value) * 100

/-- An operator joins the values of its operands as it joins values on a stack. -/
theorem value_node (operator : Operator) (left right : Tree) :
    (node operator left right).value =
      return operator.apply (← left.value) (← right.value) := by
  cases operator <;> rfl

end Tree

end LineCalc
