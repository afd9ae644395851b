import LineCalc.Operator

/-!
# Tokens

The words of an expression. A number keeps the text that was typed, because whether that text is a
number is only found out when its value is needed.
-/

set_option autoImplicit false

namespace LineCalc

inductive Token where
  | number (literal : String)
  | operator (operator : Operator)
  | openParen
  | closeParen
  deriving DecidableEq, Repr

namespace Token

def text : Token → String
  | .number literal => literal
  | .operator op => op.symbol.toString
  | .openParen => "("
  | .closeParen => ")"

/-- The texts of a list of tokens with one space between neighbours. -/
def listText (tokens : List Token) : String :=
  " ".intercalate (tokens.map text)

end Token

end LineCalc
