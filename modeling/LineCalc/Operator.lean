/-!
# Operators

The five binary operators with their symbols, their precedences and their meaning on binary64
values. All of them associate to the left.
-/

set_option autoImplicit false

namespace LineCalc

inductive Operator where
  | plus
  | minus
  | times
  | divide
  | percent
  deriving DecidableEq, Repr

namespace Operator

def all : List Operator :=
  [plus, minus, times, divide, percent]

def symbol : Operator → Char
  | plus => '+'
  | minus => '-'
  | times => '*'
  | divide => '/'
  | percent => '%'

def ofSymbol? : Char → Option Operator
  | '+' => some plus
  | '-' => some minus
  | '*' => some times
  | '/' => some divide
  | '%' => some percent
  | _ => none

/-- How tightly an operator binds: those with the higher number bind first. -/
def precedence : Operator → Nat
  | plus | minus => 1
  | times | divide | percent => 2

theorem precedence_pos (operator : Operator) : 0 < operator.precedence := by
  cases operator <;> decide

theorem precedence_le_two (operator : Operator) : operator.precedence ≤ 2 := by
  cases operator <;> decide

/-- The value of an operator between two values. The operator `%` says what percentage the left value
is of the right one; it is no remainder. -/
def apply : Operator → Float → Float → Float
  | plus, left, right => left + right
  | minus, left, right => left - right
  | times, left, right => left * right
  | divide, left, right => left / right
  | percent, left, right => left / right * 100

theorem symbol_of_ofSymbol? {character : Char} {operator : Operator}
    (read : ofSymbol? character = some operator) : operator.symbol = character := by
  unfold ofSymbol? at read
  split at read <;> simp_all [symbol] <;> subst read <;> rfl

end Operator

end LineCalc
