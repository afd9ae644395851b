import LineCalc.Token.Basic

/-!
# Counting tokens

The literals, the operators and the parentheses of a list of tokens, each for itself. Parentheses are
balanced when as many are closed as are opened, and on the way no more than were opened before.
-/

set_option autoImplicit false

namespace LineCalc.Token

/-- The literals of a list of tokens, in their order. -/
def literals : List Token → List String
  | [] => []
  | .number literal :: rest => literal :: literals rest
  | _ :: rest => literals rest

/-- The operators of a list of tokens, in their order. -/
def operators : List Token → List Operator
  | [] => []
  | .operator op :: rest => op :: operators rest
  | _ :: rest => operators rest

@[simp] theorem literals_append (left right : List Token) :
    literals (left ++ right) = literals left ++ literals right := by
  induction left with
  | nil => rfl
  | cons token rest ih => cases token <;> simp only [List.cons_append, literals, ih]

@[simp] theorem operators_append (left right : List Token) :
    operators (left ++ right) = operators left ++ operators right := by
  induction left with
  | nil => rfl
  | cons token rest ih => cases token <;> simp only [List.cons_append, operators, ih]

theorem mem_literals_iff {tokens : List Token} {literal : String} :
    literal ∈ literals tokens ↔ .number literal ∈ tokens := by
  induction tokens with
  | nil => simp [literals]
  | cons token rest ih => cases token <;> simp [literals, ih]

/-- Every closing parenthesis comes after its opening one, and every opening one is closed. -/
structure Balanced (tokens : List Token) : Prop where
  total : tokens.count .closeParen = tokens.count .openParen
  prior : ∀ part, part <+: tokens → part.count .closeParen ≤ part.count .openParen

theorem balanced_nil : Balanced [] where
  total := rfl
  prior := by
    intro part before
    rw [List.prefix_nil.mp before]
    exact Nat.le_refl _

private theorem balanced_singleton {token : Token} (opens : token ≠ .openParen)
    (closes : token ≠ .closeParen) :
    Balanced [token] where
  total := by rw [List.count_singleton, List.count_singleton]; simp [opens, closes]
  prior := by
    intro part before
    have none : part.count .closeParen = 0 := by
      rw [List.count_eq_zero]
      intro member
      exact closes (List.mem_singleton.mp (before.subset member)).symm
    omega

theorem balanced_number (literal : String) : Balanced [.number literal] :=
  balanced_singleton nofun nofun

theorem balanced_operator (op : Operator) : Balanced [.operator op] :=
  balanced_singleton nofun nofun

theorem Balanced.append {left right : List Token} (first : Balanced left) (second : Balanced right) :
    Balanced (left ++ right) where
  total := by rw [List.count_append, List.count_append, first.total, second.total]
  prior := by
    intro part before
    rcases List.prefix_or_prefix_of_prefix before (List.prefix_append left right) with inside | past
    · exact first.prior part inside
    · obtain ⟨rest, rfl⟩ := past
      have within := second.prior rest ((List.prefix_append_right_inj left).mp before)
      rw [List.count_append, List.count_append, first.total]
      omega

theorem Balanced.group {tokens : List Token} (inner : Balanced tokens) :
    Balanced (.openParen :: tokens ++ [.closeParen]) where
  total := by simp [inner.total]
  prior := by
    intro part before
    rcases List.prefix_cons_iff.mp before with rfl | ⟨rest, rfl, inside⟩
    · exact Nat.le_refl _
    · rcases List.prefix_concat_iff.mp inside with rfl | shorter
      · simp [inner.total]
      · have within := inner.prior rest shorter
        have opened : (Token.openParen :: rest).count .openParen = rest.count .openParen + 1 :=
          List.count_cons_self
        have kept : (Token.openParen :: rest).count .closeParen = rest.count .closeParen :=
          List.count_cons_of_ne (by decide)
        omega

end LineCalc.Token
