import LineCalc.Decimal.Reader
import LineCalc.EvalError

/-!
# Number literals

A literal is a decimal, or two decimals with a slash between them. Its value is the value of the
decimal, or the binary64 quotient of the two.
-/

set_option autoImplicit false

namespace LineCalc

inductive Literal where
  | decimal (value : Decimal)
  | fraction (numerator denominator : Decimal)
  deriving DecidableEq, Repr

namespace Literal

/-- Reads a literal, cutting it at its first slash. A second slash is left in the denominator, which
then is no decimal. -/
def ofChars? (text : List Char) : Option Literal :=
  let numerator := Decimal.parse? (text.takeWhile (· ≠ '/'))
  match text.dropWhile (· ≠ '/') with
  | [] => numerator.map decimal
  | _ :: denominator => do return fraction (← numerator) (← Decimal.parse? denominator)

/-- The binary64 value of a literal, infinite or not a number when its denominator is zero. -/
def toFloat : Literal → Float
  | decimal value => value.toFloat
  | fraction numerator denominator => numerator.toFloat / denominator.toFloat

/-- The value of a literal's text. The error names the whole text. -/
def valueOf (text : String) : Except EvalError Float :=
  match ofChars? text.toList with
  | some literal => .ok literal.toFloat
  | none => .error (.invalidNumber text)

end Literal

end LineCalc
