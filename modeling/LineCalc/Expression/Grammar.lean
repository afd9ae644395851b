import LineCalc.Expression.Tree

/-!
# The grammar of expressions

A sum is a chain of products, joined by `+` and `-`, a product is a chain of factors, joined by `*`, `/`
and `%`, and a factor is a literal or a sum in parentheses. Chains grow to the right of what stands already,
which is why every operator associates to the left. Each phrase of the grammar has its tokens in the order in
which they are written, and the tree that it stands for.
-/

set_option autoImplicit false

namespace LineCalc

namespace Operator

/-- The operators that join the products of a sum. -/
inductive Additive : Operator → Prop where
  | plus : Additive .plus
  | minus : Additive .minus

/-- The operators that join the factors of a product. -/
inductive Multiplicative : Operator → Prop where
  | times : Multiplicative .times
  | divide : Multiplicative .divide
  | percent : Multiplicative .percent

theorem additive_or_multiplicative (operator : Operator) :
    operator.Additive ∨ operator.Multiplicative := by
  cases operator with
  | plus => exact .inl .plus
  | minus => exact .inl .minus
  | times => exact .inr .times
  | divide => exact .inr .divide
  | percent => exact .inr .percent

theorem Additive.precedence {operator : Operator} (additive : operator.Additive) :
    operator.precedence = 1 := by
  cases additive <;> rfl

theorem Multiplicative.precedence {operator : Operator} (multiplicative : operator.Multiplicative) :
    operator.precedence = 2 := by
  cases multiplicative <;> rfl

end Operator

namespace Grammar

mutual

inductive Sum where
  | single (product : Product)
  | chain (left : Sum) (operator : Operator) (additive : operator.Additive) (right : Product)

inductive Product where
  | single (factor : Factor)
  | chain (left : Product) (operator : Operator) (multiplicative : operator.Multiplicative)
      (right : Factor)

inductive Factor where
  | literal (literal : String)
  | group (sum : Sum)

end

mutual

/-- The tokens as they are written. -/
def Sum.tokens : Sum → List Token
  | .single product => product.tokens
  | .chain left operator _ right => left.tokens ++ .operator operator :: right.tokens

def Product.tokens : Product → List Token
  | .single factor => factor.tokens
  | .chain left operator _ right => left.tokens ++ .operator operator :: right.tokens

def Factor.tokens : Factor → List Token
  | .literal literal => [.number literal]
  | .group sum => .openParen :: sum.tokens ++ [.closeParen]

end

mutual

/-- The tree that a sum stands for. Parentheses leave no trace in it. -/
def Sum.tree : Sum → Tree
  | .single product => product.tree
  | .chain left operator _ right => .node operator left.tree right.tree

def Product.tree : Product → Tree
  | .single factor => factor.tree
  | .chain left operator _ right => .node operator left.tree right.tree

def Factor.tree : Factor → Tree
  | .literal literal => .leaf literal
  | .group sum => sum.tree

end

/-- A list of tokens is an expression when it spells a sum. -/
def IsExpression (tokens : List Token) : Prop :=
  ∃ sum : Sum, sum.tokens = tokens

end Grammar

end LineCalc
