import LineCalc.EvalError
import LineCalc.Token.Basic

/-!
# From infix to reverse Polish order

The tokens of an expression are reordered so that every operator follows its operands. Numbers pass
straight through. An operator waits until an operator that binds less tightly, a closing parenthesis
or the end of the line comes, and meanwhile releases the waiting operators that bind at least as
tightly as itself. An opening parenthesis that is never closed is released at the end, as a token of
the result.
-/

set_option autoImplicit false

namespace LineCalc.Rpn

/-- What waits for its place in the result. -/
inductive Pending where
  | openParen
  | operator (operator : Operator)
  deriving DecidableEq, Repr

namespace Pending

def token : Pending → Token
  | .openParen => .openParen
  | .operator op => .operator op

/-- Whether what waits has to be released before an operator starts to wait. Only operators are, and
an equal precedence suffices, which makes every operator associate to the left. -/
def yieldsTo (next : Operator) : Pending → Bool
  | .openParen => false
  | .operator waiting => next.precedence ≤ waiting.precedence

end Pending

/-- The state between two tokens: what was released so far, the latest first, and what waits, the
latest first. -/
structure Conversion where
  released : List Token
  pending : List Pending
  deriving DecidableEq, Repr

namespace Conversion

def start : Conversion where
  released := []
  pending := []

/-- Releases pending items in the order in which they are given. -/
def release (released : List Token) (items : List Pending) : List Token :=
  (items.map Pending.token).reverse ++ released

def step (state : Conversion) : Token → Except EvalError Conversion
  | .number literal => .ok { state with released := .number literal :: state.released }
  | .operator operator =>
    .ok {
      released := release state.released (state.pending.takeWhile (Pending.yieldsTo operator))
      pending := .operator operator :: state.pending.dropWhile (Pending.yieldsTo operator) }
  | .openParen => .ok { state with pending := .openParen :: state.pending }
  | .closeParen =>
    match state.pending.dropWhile (· ≠ .openParen) with
    | [] => .error .unmatchedClose
    | _ :: outside =>
      .ok {
        released := release state.released (state.pending.takeWhile (· ≠ .openParen))
        pending := outside }

def run (state : Conversion) (tokens : List Token) : Except EvalError Conversion :=
  tokens.foldlM step state

def finish (state : Conversion) : List Token :=
  (release state.released state.pending).reverse

end Conversion

/-- The tokens of an expression in reverse Polish order. -/
def ofTokens (tokens : List Token) : Except EvalError (List Token) :=
  return (← Conversion.start.run tokens).finish

end LineCalc.Rpn
