import LineCalc.Expression.Grammar
import LineCalc.Proofs.Token.Counting

/-!
# Loose expressions

The grammar of expressions asks for exactly one literal or group wherever a factor belongs. A loose
expression has the same two levels of precedence, but a run of any number of literals and groups, also
of none, stands where a factor belongs. Loose expressions spell every list of tokens with balanced
parentheses, so what happens to malformed input can be said by recursion on them.
-/

set_option autoImplicit false

namespace LineCalc.Loose

mutual

inductive Sum where
  | single (product : Product)
  | chain (left : Sum) (operator : Operator) (additive : operator.Additive) (right : Product)

inductive Product where
  | single (run : Run)
  | chain (left : Product) (operator : Operator) (multiplicative : operator.Multiplicative) (right : Run)

inductive Run where
  | empty
  | literal (before : Run) (literal : String)
  | group (before : Run) (sum : Sum)

end

mutual

/-- The tokens as they are written. -/
def Sum.tokens : Sum → List Token
  | .single product => product.tokens
  | .chain left operator _ right => left.tokens ++ .operator operator :: right.tokens

def Product.tokens : Product → List Token
  | .single run => run.tokens
  | .chain left operator _ right => left.tokens ++ .operator operator :: right.tokens

def Run.tokens : Run → List Token
  | .empty => []
  | .literal before literal => before.tokens ++ [.number literal]
  | .group before sum => before.tokens ++ .openParen :: sum.tokens ++ [.closeParen]

end

mutual

/-- The tokens without parentheses, and with every operator after all that is written on its two sides. -/
def Sum.postorder : Sum → List Token
  | .single product => product.postorder
  | .chain left operator _ right => left.postorder ++ right.postorder ++ [.operator operator]

def Product.postorder : Product → List Token
  | .single run => run.postorder
  | .chain left operator _ right => left.postorder ++ right.postorder ++ [.operator operator]

def Run.postorder : Run → List Token
  | .empty => []
  | .literal before literal => before.postorder ++ [.number literal]
  | .group before sum => before.postorder ++ sum.postorder

end

/-- The operands that are left when an operator joins the last two of `count`, if there are two. -/
def joinOperands : Nat → Option Nat
  | count + 2 => some (count + 1)
  | _ => none

mutual

/-- The operands there are once all is worked out, when there were `before` of them. An operator is
worked out after its right side, and there is no answer when it finds fewer than two operands. -/
def Sum.operands : Sum → Nat → Option Nat
  | .single product, before => product.operands before
  | .chain left _ _ right, before =>
    (left.operands before >>= right.operands) >>= joinOperands

def Product.operands : Product → Nat → Option Nat
  | .single run, before => run.operands before
  | .chain left _ _ right, before =>
    (left.operands before >>= right.operands) >>= joinOperands

def Run.operands : Run → Nat → Option Nat
  | .empty, before => some before
  | .literal run _, before => run.operands before >>= fun count => some (count + 1)
  | .group run sum, before => run.operands before >>= sum.operands

end

/-! ## Writing on -/

def Sum.empty : Sum :=
  .single (.single .empty)

@[simp] theorem Sum.tokens_empty : Sum.empty.tokens = [] := rfl

/-- The product with its last run replaced. -/
def Product.mapLast (change : Run → Run) : Product → Product
  | .single run => .single (change run)
  | .chain left operator multiplicative right => .chain left operator multiplicative (change right)

/-- The sum with its last product replaced. -/
def Sum.mapLast (change : Product → Product) : Sum → Sum
  | .single product => .single (change product)
  | .chain left operator additive right => .chain left operator additive (change right)

private theorem Product.tokens_mapLast {change : Run → Run} {written : List Token}
    (extended : ∀ run, (change run).tokens = run.tokens ++ written) (product : Product) :
    (product.mapLast change).tokens = product.tokens ++ written := by
  cases product with
  | single run => simp only [Product.mapLast, Product.tokens, extended]
  | chain left operator multiplicative right =>
    simp only [Product.mapLast, Product.tokens, extended, List.append_assoc, List.cons_append]

private theorem Sum.tokens_mapLast {change : Product → Product} {written : List Token}
    (extended : ∀ product, (change product).tokens = product.tokens ++ written) (sum : Sum) :
    (sum.mapLast change).tokens = sum.tokens ++ written := by
  cases sum with
  | single product => simp only [Sum.mapLast, Sum.tokens, extended]
  | chain left operator additive right =>
    simp only [Sum.mapLast, Sum.tokens, extended, List.append_assoc, List.cons_append]

private theorem Sum.exists_tokens_append_number (sum : Sum) (literal : String) :
    ∃ longer : Sum, longer.tokens = sum.tokens ++ [.number literal] :=
  ⟨sum.mapLast (Product.mapLast (.literal · literal)),
    Sum.tokens_mapLast (Product.tokens_mapLast fun _ => rfl) sum⟩

private theorem Sum.exists_tokens_append_group (sum inner : Sum) :
    ∃ longer : Sum, longer.tokens = sum.tokens ++ (.openParen :: inner.tokens ++ [.closeParen]) := by
  refine ⟨sum.mapLast (Product.mapLast (.group · inner)), Sum.tokens_mapLast ?_ sum⟩
  apply Product.tokens_mapLast
  intro run
  simp only [Run.tokens, List.append_assoc, List.cons_append]

private theorem Sum.exists_tokens_append_operator (sum : Sum) (operator : Operator) :
    ∃ longer : Sum, longer.tokens = sum.tokens ++ [.operator operator] := by
  rcases operator.additive_or_multiplicative with additive | multiplicative
  · exact ⟨.chain sum operator additive (.single .empty), rfl⟩
  · exact ⟨sum.mapLast (.chain · operator multiplicative .empty),
      Sum.tokens_mapLast (fun _ => rfl) sum⟩

/-! ## What the postorder keeps -/

mutual

theorem Sum.literals_postorder (sum : Sum) :
    Token.literals sum.postorder = Token.literals sum.tokens := by
  cases sum with
  | single product => exact product.literals_postorder
  | chain left operator additive right =>
    simp only [Sum.postorder, Sum.tokens, Token.literals_append, left.literals_postorder,
      right.literals_postorder, Token.literals, List.append_nil]

theorem Product.literals_postorder (product : Product) :
    Token.literals product.postorder = Token.literals product.tokens := by
  cases product with
  | single run => exact run.literals_postorder
  | chain left operator multiplicative right =>
    simp only [Product.postorder, Product.tokens, Token.literals_append, left.literals_postorder,
      right.literals_postorder, Token.literals, List.append_nil]

theorem Run.literals_postorder (run : Run) :
    Token.literals run.postorder = Token.literals run.tokens := by
  cases run with
  | empty => rfl
  | literal before literal =>
    simp only [Run.postorder, Run.tokens, Token.literals_append, before.literals_postorder]
  | group before sum =>
    simp only [Run.postorder, Run.tokens, Token.literals_append, before.literals_postorder,
      sum.literals_postorder, Token.literals, List.append_nil]

end

mutual

theorem Sum.operators_postorder (sum : Sum) :
    (Token.operators sum.postorder).Perm (Token.operators sum.tokens) := by
  cases sum with
  | single product => exact product.operators_postorder
  | chain left operator additive right =>
    simp only [Sum.postorder, Sum.tokens, Token.operators_append, Token.operators, List.append_assoc]
    exact left.operators_postorder.append
      ((List.perm_append_singleton operator _).trans (right.operators_postorder.cons operator))

theorem Product.operators_postorder (product : Product) :
    (Token.operators product.postorder).Perm (Token.operators product.tokens) := by
  cases product with
  | single run => exact run.operators_postorder
  | chain left operator multiplicative right =>
    simp only [Product.postorder, Product.tokens, Token.operators_append, Token.operators,
      List.append_assoc]
    exact left.operators_postorder.append
      ((List.perm_append_singleton operator _).trans (right.operators_postorder.cons operator))

theorem Run.operators_postorder (run : Run) :
    (Token.operators run.postorder).Perm (Token.operators run.tokens) := by
  cases run with
  | empty => exact .refl _
  | literal before literal =>
    simp only [Run.postorder, Run.tokens, Token.operators_append]
    exact before.operators_postorder.append (.refl _)
  | group before sum =>
    simp only [Run.postorder, Run.tokens, Token.operators_append, Token.operators, List.append_nil]
    exact before.operators_postorder.append sum.operators_postorder

end

mutual

theorem Sum.balanced_tokens (sum : Sum) : Token.Balanced sum.tokens := by
  cases sum with
  | single product => exact product.balanced_tokens
  | chain left operator additive right =>
    have joined := (Token.balanced_operator operator).append
      right.balanced_tokens
    exact left.balanced_tokens.append joined

theorem Product.balanced_tokens (product : Product) : Token.Balanced product.tokens := by
  cases product with
  | single run => exact run.balanced_tokens
  | chain left operator multiplicative right =>
    have joined := (Token.balanced_operator operator).append
      right.balanced_tokens
    exact left.balanced_tokens.append joined

theorem Run.balanced_tokens (run : Run) : Token.Balanced run.tokens := by
  cases run with
  | empty => exact Token.balanced_nil
  | literal before literal =>
    exact before.balanced_tokens.append (Token.balanced_number literal)
  | group before sum =>
    rw [Run.tokens, List.append_assoc]
    exact before.balanced_tokens.append sum.balanced_tokens.group

end

/-! ## Where a list of tokens stops -/

/-- What is spelled by tokens that close no group before it is opened: the sums whose last group is still
open, the innermost first, and the sum after the last of these open groups. -/
structure Outline where
  enclosing : List Sum
  current : Sum

/-- The tokens of sums that are each followed by the start of a group, of which the last comes first. -/
def openTokens : List Sum → List Token
  | [] => []
  | sum :: outer => openTokens outer ++ sum.tokens ++ [.openParen]

def Outline.tokens (outline : Outline) : List Token :=
  openTokens outline.enclosing ++ outline.current.tokens

/-- An outline can be written on with any token, a closing parenthesis if a group is open. -/
theorem Outline.exists_tokens_append (outline : Outline) (token : Token)
    (closes : token = .closeParen → outline.enclosing ≠ []) :
    ∃ longer : Outline, longer.tokens = outline.tokens ++ [token] := by
  obtain ⟨enclosing, current⟩ := outline
  cases token with
  | number literal =>
    obtain ⟨longer, written⟩ := current.exists_tokens_append_number literal
    exact ⟨{ enclosing, current := longer }, by simp only [Outline.tokens, written, List.append_assoc]⟩
  | operator operator =>
    obtain ⟨longer, written⟩ := current.exists_tokens_append_operator operator
    exact ⟨{ enclosing, current := longer }, by simp only [Outline.tokens, written, List.append_assoc]⟩
  | openParen =>
    refine ⟨{ enclosing := current :: enclosing, current := .empty }, ?_⟩
    simp only [Outline.tokens, openTokens, Sum.tokens_empty, List.append_nil]
  | closeParen =>
    cases enclosing with
    | nil => exact absurd rfl (closes rfl)
    | cons sum outer =>
      obtain ⟨longer, written⟩ := sum.exists_tokens_append_group current
      refine ⟨{ enclosing := outer, current := longer }, ?_⟩
      simp only [Outline.tokens, openTokens, written, List.append_assoc, List.cons_append,
        List.nil_append]

/-- A list of tokens either spells an outline, or closes a group that it has not opened. The outline of what was
taken so far grows token by token until then. -/
theorem exists_outline_or_unmatched (tokens : List Token) :
    (∃ outline : Outline, outline.tokens = tokens) ∨
      ∃ (sum : Sum) (rest : List Token), tokens = sum.tokens ++ .closeParen :: rest := by
  have following : ∀ (rest : List Token) (outline : Outline),
      (∃ longer : Outline, longer.tokens = outline.tokens ++ rest) ∨
        ∃ (sum : Sum) (left : List Token),
          outline.tokens ++ rest = sum.tokens ++ .closeParen :: left := by
    intro rest
    induction rest with
    | nil => exact fun outline => .inl ⟨outline, (List.append_nil _).symm⟩
    | cons token rest ih =>
      intro outline
      by_cases unmatched : token = .closeParen ∧ outline.enclosing = []
      · refine .inr ⟨outline.current, rest, ?_⟩
        simp only [Outline.tokens, unmatched.2, openTokens, List.nil_append, unmatched.1]
      · obtain ⟨next, written⟩ := outline.exists_tokens_append token
          fun closes enclosed => unmatched ⟨closes, enclosed⟩
        simpa only [written, List.append_assoc, List.singleton_append] using ih next
  simpa only [Outline.tokens, openTokens, Sum.tokens_empty, List.nil_append] using
    following tokens { enclosing := [], current := .empty }

private theorem count_openTokens (enclosing : List Sum) :
    (openTokens enclosing).count .openParen =
      (openTokens enclosing).count .closeParen + enclosing.length := by
  induction enclosing with
  | nil => rfl
  | cons sum outer ih =>
    have total := sum.balanced_tokens.total
    simp only [openTokens, List.count_append, List.count_singleton_self, List.length_cons]
    rw [List.count_singleton, if_neg (by decide)]
    omega

/-- Loose expressions spell the tokens with balanced parentheses, and no others. -/
theorem balanced_iff_exists_sum {tokens : List Token} :
    Token.Balanced tokens ↔ ∃ sum : Sum, sum.tokens = tokens := by
  constructor
  · intro balanced
    rcases exists_outline_or_unmatched tokens with ⟨⟨enclosing, current⟩, rfl⟩ | ⟨sum, rest, rfl⟩
    · have closed := balanced.total
      have total := current.balanced_tokens.total
      simp only [Outline.tokens, List.count_append, count_openTokens] at closed
      obtain rfl : enclosing = [] := List.length_eq_zero_iff.mp (by omega)
      exact ⟨current, rfl⟩
    · have within := balanced.prior (sum.tokens ++ [.closeParen])
        ⟨rest, by rw [List.append_assoc, List.singleton_append]⟩
      simp only [List.count_append, List.count_singleton_self, sum.balanced_tokens.total] at within
      rw [List.count_singleton, if_neg (by decide)] at within
      omega
  · rintro ⟨sum, rfl⟩
    exact sum.balanced_tokens

end LineCalc.Loose

namespace LineCalc.Grammar

/-! ## Expressions -/

mutual

/-- An expression as a loose one, in which every run has one literal or group. -/
def Sum.loose : Sum → Loose.Sum
  | .single product => .single product.loose
  | .chain left operator additive right => .chain left.loose operator additive right.loose

def Product.loose : Product → Loose.Product
  | .single factor => .single factor.loose
  | .chain left operator multiplicative right => .chain left.loose operator multiplicative right.loose

def Factor.loose : Factor → Loose.Run
  | .literal literal => .literal .empty literal
  | .group sum => .group .empty sum.loose

end

mutual

theorem Sum.tokens_loose (sum : Sum) : sum.loose.tokens = sum.tokens := by
  cases sum with
  | single product => exact product.tokens_loose
  | chain left operator additive right =>
    rw [Sum.loose, Loose.Sum.tokens, left.tokens_loose, right.tokens_loose, Sum.tokens]

theorem Product.tokens_loose (product : Product) : product.loose.tokens = product.tokens := by
  cases product with
  | single factor => exact factor.tokens_loose
  | chain left operator multiplicative right =>
    rw [Product.loose, Loose.Product.tokens, left.tokens_loose, right.tokens_loose, Product.tokens]

theorem Factor.tokens_loose (factor : Factor) : factor.loose.tokens = factor.tokens := by
  cases factor with
  | literal literal => rfl
  | group sum =>
    rw [Factor.loose, Loose.Run.tokens, Loose.Run.tokens, sum.tokens_loose, Factor.tokens]
    rfl

end

mutual

theorem Sum.postorder_loose (sum : Sum) : sum.loose.postorder = sum.tree.postorder := by
  cases sum with
  | single product => exact product.postorder_loose
  | chain left operator additive right =>
    rw [Sum.loose, Loose.Sum.postorder, left.postorder_loose, right.postorder_loose, Sum.tree,
      Tree.postorder]

theorem Product.postorder_loose (product : Product) :
    product.loose.postorder = product.tree.postorder := by
  cases product with
  | single factor => exact factor.postorder_loose
  | chain left operator multiplicative right =>
    rw [Product.loose, Loose.Product.postorder, left.postorder_loose, right.postorder_loose,
      Product.tree, Tree.postorder]

theorem Factor.postorder_loose (factor : Factor) : factor.loose.postorder = factor.tree.postorder := by
  cases factor with
  | literal literal => rfl
  | group sum => exact sum.postorder_loose

end

mutual

theorem Sum.operands_loose (sum : Sum) (before : Nat) :
    sum.loose.operands before = some (before + 1) := by
  cases sum with
  | single product => exact product.operands_loose before
  | chain left operator additive right =>
    rw [Sum.loose, Loose.Sum.operands, left.operands_loose, Option.bind_eq_bind, Option.bind_some,
      right.operands_loose]
    rfl

theorem Product.operands_loose (product : Product) (before : Nat) :
    product.loose.operands before = some (before + 1) := by
  cases product with
  | single factor => exact factor.operands_loose before
  | chain left operator multiplicative right =>
    rw [Product.loose, Loose.Product.operands, left.operands_loose, Option.bind_eq_bind,
      Option.bind_some, right.operands_loose]
    rfl

theorem Factor.operands_loose (factor : Factor) (before : Nat) :
    factor.loose.operands before = some (before + 1) := by
  cases factor with
  | literal literal => rfl
  | group sum => exact sum.operands_loose before

end

end LineCalc.Grammar
