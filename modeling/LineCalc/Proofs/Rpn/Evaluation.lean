import LineCalc.Expression.Tree
import LineCalc.Proofs.Expression.Loose
import LineCalc.Proofs.Failure
import LineCalc.Rpn.Evaluation

/-!
# The values of tokens in reverse Polish order

A stack that an evaluation reaches holds the values of trees whose postorders spell the tokens taken in,
so a list of tokens has a value exactly when it is the postorder of a tree that has it. For a loose
expression it is enough to count operands.
-/

set_option autoImplicit false

namespace LineCalc.Rpn

/-! ## Runs -/

@[simp] theorem run_nil (stack : List Float) : run stack [] = .ok stack := rfl

theorem run_append (stack : List Float) (before after : List Token) :
    run stack (before ++ after) = run stack before >>= fun middle => run middle after := by
  simp only [run, List.foldlM_append]

@[simp] theorem run_singleton (stack : List Float) (token : Token) :
    run stack [token] = step stack token := by
  simp only [run, List.foldlM_cons, List.foldlM_nil, bind_pure]

theorem run_cons_eq_ok_iff {stack result : List Float} {token : Token} {after : List Token} :
    run stack (token :: after) = .ok result ↔
      ∃ middle, step stack token = .ok middle ∧ run middle after = .ok result := by
  rw [run, List.foldlM_cons, bind_eq_ok_iff]
  rfl

theorem run_append_eq_ok_iff {stack result : List Float} {before after : List Token} :
    run stack (before ++ after) = .ok result ↔
      ∃ middle, run stack before = .ok middle ∧ run middle after = .ok result := by
  rw [run_append, bind_eq_ok_iff]

theorem step_number_eq_ok_iff {stack next : List Float} {literal : String} :
    step stack (.number literal) = .ok next ↔
      ∃ value, Literal.valueOf literal = .ok value ∧ next = value :: stack := by
  rw [step, bind_eq_ok_iff]
  simp only [pure, Except.pure, Except.ok.injEq, eq_comm]

theorem step_operator_eq_ok_iff {stack next : List Float} {operator : Operator} :
    step stack (.operator operator) = .ok next ↔
      ∃ left right rest, stack = right :: left :: rest ∧ next = operator.apply left right :: rest := by
  match stack with
  | [] => simp [step]
  | [single] => simp [step]
  | right :: left :: rest =>
    simp only [step, Except.ok.injEq]
    constructor
    · intro same
      exact ⟨left, right, rest, rfl, same.symm⟩
    · intro split
      obtain ⟨_, _, _, same, rfl⟩ := split
      cases same
      rfl

theorem not_paren_of_step {stack next : List Float} {token : Token}
    (stepped : step stack token = .ok next) : token ≠ .openParen ∧ token ≠ .closeParen := by
  constructor
  · intro opens
    subst opens
    cases stack <;> cases stepped
  · intro closes
    subst closes
    cases stack <;> cases stepped

theorem not_mem_paren_of_run {stack result : List Float} {tokens : List Token}
    (ran : run stack tokens = .ok result) : .openParen ∉ tokens ∧ .closeParen ∉ tokens := by
  induction tokens generalizing stack with
  | nil => exact ⟨List.not_mem_nil, List.not_mem_nil⟩
  | cons token rest ih =>
    obtain ⟨middle, stepped, followed⟩ := run_cons_eq_ok_iff.mp ran
    obtain ⟨opens, closes⟩ := not_paren_of_step stepped
    obtain ⟨restOpens, restCloses⟩ := ih followed
    simp only [List.mem_cons, not_or]
    exact ⟨⟨opens.symm, restOpens⟩, closes.symm, restCloses⟩

theorem result_eq_ok_iff {stack : List Float} {value : Float} :
    result stack = .ok value ↔ stack = [value] := by
  match stack with
  | [] => simp [result]
  | [single] => simp [result]
  | _ :: _ :: _ => simp [result]

theorem evaluate_eq_ok_iff {tokens : List Token} {value : Float} :
    evaluate tokens = .ok value ↔ run [] tokens = .ok [value] := by
  simp only [evaluate, bind_eq_ok_iff, result_eq_ok_iff]
  constructor
  · intro reached
    obtain ⟨_, ran, rfl⟩ := reached
    exact ran
  · exact fun ran => ⟨_, ran, rfl⟩

/-! ## Trees -/

/-- The postorders of the trees on a stack, from the bottom to the top. -/
def postorders : List Tree → List Token
  | [] => []
  | tree :: below => postorders below ++ tree.postorder

/-- A tree's tokens put its value on the stack, or fail as its value does. -/
theorem run_postorder (tree : Tree) (stack : List Float) :
    run stack tree.postorder = tree.value >>= fun value => .ok (value :: stack) := by
  induction tree generalizing stack with
  | leaf literal => exact run_singleton stack _
  | node operator left right leftIH rightIH =>
    rw [Tree.postorder, run_append, run_append, leftIH, Tree.value_node]
    cases left.value with
    | error cause => rfl
    | ok leftValue =>
      simp only [bind, Except.bind, rightIH]
      cases right.value with
      | error cause => rfl
      | ok rightValue => exact run_singleton _ _

theorem evaluate_postorder (tree : Tree) : evaluate tree.postorder = tree.value := by
  rw [evaluate, run_postorder]
  cases tree.value with
  | error cause => rfl
  | ok value => rfl

/-- A step joins the trees whose values are on the stack, and appends its token to their postorders. -/
theorem step_trees {trees : List Tree} {stack next : List Float} {token : Token}
    (valued : trees.map Tree.value = stack.map .ok) (stepped : step stack token = .ok next) :
    ∃ grown : List Tree, grown.map Tree.value = next.map .ok ∧
      postorders grown = postorders trees ++ [token] := by
  cases token with
  | number literal =>
    obtain ⟨value, read, rfl⟩ := step_number_eq_ok_iff.mp stepped
    refine ⟨.leaf literal :: trees, ?_, rfl⟩
    simp only [List.map_cons, Tree.value, read, valued]
  | operator operator =>
    obtain ⟨left, right, rest, rfl, rfl⟩ := step_operator_eq_ok_iff.mp stepped
    obtain ⟨rightTree, trees, rfl, rightValued, valued⟩ := List.map_eq_cons_iff.mp valued
    obtain ⟨leftTree, trees, rfl, leftValued, valued⟩ := List.map_eq_cons_iff.mp valued
    refine ⟨.node operator leftTree rightTree :: trees, ?_, ?_⟩
    · simp only [List.map_cons, Tree.value_node, leftValued, rightValued, valued]
      rfl
    · simp only [postorders, Tree.postorder, List.append_assoc]
  | openParen => exact absurd rfl (not_paren_of_step stepped).1
  | closeParen => exact absurd rfl (not_paren_of_step stepped).2

theorem run_trees (trees : List Tree) {stack result : List Float} {tokens : List Token}
    (valued : trees.map Tree.value = stack.map .ok) (ran : run stack tokens = .ok result) :
    ∃ grown : List Tree, grown.map Tree.value = result.map .ok ∧
      postorders grown = postorders trees ++ tokens := by
  induction tokens generalizing trees stack with
  | nil =>
    cases ran
    exact ⟨trees, valued, (List.append_nil _).symm⟩
  | cons token rest ih =>
    obtain ⟨middle, stepped, followed⟩ := run_cons_eq_ok_iff.mp ran
    obtain ⟨joined, joinedValued, joinedSpelled⟩ := step_trees valued stepped
    obtain ⟨grown, grownValued, grownSpelled⟩ := ih joined joinedValued followed
    refine ⟨grown, grownValued, ?_⟩
    rw [grownSpelled, joinedSpelled, List.append_assoc, List.singleton_append]

/-- A list of tokens has a value exactly when it is the postorder of a tree with that value. -/
theorem evaluate_eq_ok_iff_tree {tokens : List Token} {value : Float} :
    evaluate tokens = .ok value ↔ ∃ tree : Tree, tree.postorder = tokens ∧ tree.value = .ok value := by
  constructor
  · intro evaluated
    obtain ⟨grown, valued, spelled⟩ := run_trees [] rfl (evaluate_eq_ok_iff.mp evaluated)
    obtain ⟨tree, below, rfl, treeValued, belowValued⟩ := List.map_eq_cons_iff.mp valued
    cases List.map_eq_nil_iff.mp belowValued
    exact ⟨tree, spelled, treeValued⟩
  · intro spelled
    obtain ⟨tree, rfl, valued⟩ := spelled
    rw [evaluate_postorder, valued]

/-! ## Counting operands -/

/-- Every literal of a list of tokens has a value. -/
def Readable (tokens : List Token) : Prop :=
  ∀ literal ∈ Token.literals tokens, ∃ value, Literal.valueOf literal = .ok value

theorem readable_append_iff {left right : List Token} :
    Readable (left ++ right) ↔ Readable left ∧ Readable right := by
  simp only [Readable, Token.literals_append, List.mem_append, or_imp, forall_and]

/-- Tokens are taken in exactly when their literals are readable and `operands` finds an answer, which
then is the height of the stack. -/
def Counts (tokens : List Token) (operands : Nat → Option Nat) : Prop :=
  ∀ (stack : List Float) (count : Nat),
    (∃ result, run stack tokens = .ok result ∧ result.length = count) ↔
      Readable tokens ∧ operands stack.length = some count

private theorem counts_nil : Counts [] some := by
  intro stack count
  simp [Readable, Token.literals]

private theorem counts_number (literal : String) :
    Counts [.number literal] fun before => some (before + 1) := by
  intro stack count
  simp only [run_singleton, step_number_eq_ok_iff, Readable, Token.literals, List.mem_singleton,
    forall_eq, Option.some.injEq]
  constructor
  · intro taken
    obtain ⟨_, ⟨value, read, rfl⟩, rfl⟩ := taken
    exact ⟨⟨value, read⟩, rfl⟩
  · intro readable
    obtain ⟨⟨value, read⟩, rfl⟩ := readable
    exact ⟨_, ⟨value, read, rfl⟩, rfl⟩

private theorem counts_operator (operator : Operator) : Counts [.operator operator] Loose.joinOperands := by
  intro stack count
  simp only [run_singleton, step_operator_eq_ok_iff, Readable, Token.literals, List.not_mem_nil,
    false_implies, implies_true, true_and]
  constructor
  · intro taken
    obtain ⟨_, ⟨left, right, rest, rfl, rfl⟩, rfl⟩ := taken
    rfl
  · intro joined
    match stack, joined with
    | right :: left :: rest, joined =>
      exact ⟨_, ⟨left, right, rest, rfl, rfl⟩, Option.some.inj joined⟩

private theorem Counts.append {left right : List Token} {first second : Nat → Option Nat}
    (leftCounts : Counts left first) (rightCounts : Counts right second) :
    Counts (left ++ right) fun before => first before >>= second := by
  intro stack count
  rw [readable_append_iff]
  constructor
  · intro taken
    obtain ⟨result, ran, height⟩ := taken
    obtain ⟨middle, leftRan, rightRan⟩ := run_append_eq_ok_iff.mp ran
    obtain ⟨leftReadable, leftOperands⟩ := (leftCounts stack middle.length).mp ⟨middle, leftRan, rfl⟩
    obtain ⟨rightReadable, rightOperands⟩ := (rightCounts middle count).mp ⟨result, rightRan, height⟩
    exact ⟨⟨leftReadable, rightReadable⟩, Option.bind_eq_some_iff.mpr ⟨_, leftOperands, rightOperands⟩⟩
  · intro both
    obtain ⟨⟨leftReadable, rightReadable⟩, operands⟩ := both
    obtain ⟨height, leftOperands, rightOperands⟩ := Option.bind_eq_some_iff.mp operands
    obtain ⟨middle, leftRan, rfl⟩ := (leftCounts stack height).mpr ⟨leftReadable, leftOperands⟩
    obtain ⟨result, rightRan, height⟩ := (rightCounts middle count).mpr ⟨rightReadable, rightOperands⟩
    exact ⟨result, run_append_eq_ok_iff.mpr ⟨middle, leftRan, rightRan⟩, height⟩

end LineCalc.Rpn

namespace LineCalc.Loose

mutual

theorem Sum.counts_postorder (sum : Sum) : Rpn.Counts sum.postorder sum.operands := by
  cases sum with
  | single product => exact product.counts_postorder
  | chain left operator additive right =>
    exact (left.counts_postorder.append right.counts_postorder).append (Rpn.counts_operator operator)

theorem Product.counts_postorder (product : Product) : Rpn.Counts product.postorder product.operands := by
  cases product with
  | single run => exact run.counts_postorder
  | chain left operator multiplicative right =>
    exact (left.counts_postorder.append right.counts_postorder).append (Rpn.counts_operator operator)

theorem Run.counts_postorder (run : Run) : Rpn.Counts run.postorder run.operands := by
  cases run with
  | empty => exact Rpn.counts_nil
  | literal before literal =>
    exact before.counts_postorder.append (Rpn.counts_number literal)
  | group before sum => exact before.counts_postorder.append sum.counts_postorder

end

end LineCalc.Loose

namespace LineCalc.Tree

@[simp] theorem literals_postorder (tree : Tree) : Token.literals tree.postorder = tree.literals := by
  induction tree with
  | leaf literal => rfl
  | node operator left right leftIH rightIH =>
    simp only [postorder, Token.literals_append, leftIH, rightIH, literals, Token.literals,
      List.append_nil]

@[simp] theorem operators_postorder (tree : Tree) :
    Token.operators tree.postorder = tree.operators := by
  induction tree with
  | leaf literal => rfl
  | node operator left right leftIH rightIH =>
    simp only [postorder, Token.operators_append, leftIH, rightIH, operators, Token.operators]

end LineCalc.Tree
