import LineCalc.Proofs.Rpn.Conservation
import Mathlib.Data.List.Chain
import Mathlib.Data.List.Count

/-!
# The order of what waits

An operator only waits on top of operators that bind less tightly, back to the last parenthesis that is open. So
the operators between two open parentheses have different precedences, of which there are two, and what waits is
never more than three items for each open parenthesis and two for the outside.
-/

set_option autoImplicit false

namespace LineCalc.Rpn

private theorem Pending.token_injective : Function.Injective Pending.token := by
  intro first second same
  cases first <;> cases second <;> cases same <;> rfl

namespace Conversion

variable {pending : List Pending}

/-! ## Items on top of each other -/

/-- An item may wait directly on top of another one: an operator may when the other does not yield to it. -/
def RestsOn (upper lower : Pending) : Prop :=
  ∀ operator, upper = .operator operator → lower.yieldsTo operator = false

/-- What waits, the latest first, rests each on the next. -/
def Stacked (pending : List Pending) : Prop :=
  pending.IsChain RestsOn

theorem restsOn_operator_iff {upper lower : Operator} :
    RestsOn (.operator upper) (.operator lower) ↔ lower.precedence < upper.precedence := by
  simp only [RestsOn, Pending.operator.injEq, forall_eq', Pending.yieldsTo, decide_eq_false_iff_not, not_le]

theorem stacked_cons_iff {item : Pending} :
    Stacked (item :: pending) ↔ (∀ next ∈ pending.head?, RestsOn item next) ∧ Stacked pending :=
  List.isChain_cons

theorem Stacked.step {state next : Conversion} {token : Token} (stacked : Stacked state.pending)
    (stepped : state.step token = .ok next) : Stacked next.pending := by
  cases steps_of_step stepped with
  | number literal => exact stacked
  | operator waits yielding held =>
    rw [← waits] at stacked
    refine stacked_cons_iff.mpr ⟨?_, stacked.right_of_append⟩
    intro item first operator same
    cases same
    exact held item first
  | openParen => exact stacked_cons_iff.mpr ⟨fun _ _ _ same => (nomatch same), stacked⟩
  | closeParen waits inside =>
    rw [← waits] at stacked
    exact (stacked_cons_iff.mp stacked.right_of_append).2

theorem stacked_of_run {tokens : List Token} {state : Conversion} (ran : start.run tokens = .ok state) :
    Stacked state.pending := by
  have empty : Stacked start.pending := List.isChain_nil
  exact foldlM_induction (fun state => Stacked state.pending)
    (fun _ _ _ _ stacked stepped => Stacked.step stacked stepped) ran empty

/-! ## How much waits -/

/-- The precedence of the latest item, if it is an operator. -/
def topPrecedence : List Pending → Nat
  | .operator operator :: _ => operator.precedence
  | _ => 0

private theorem topPrecedence_le_two (pending : List Pending) : topPrecedence pending ≤ 2 := by
  unfold topPrecedence
  split
  · exact Operator.precedence_le_two _
  · exact Nat.zero_le 2

private theorem topPrecedence_lt {operator : Operator} (stacked : Stacked (.operator operator :: pending)) :
    topPrecedence pending < operator.precedence := by
  obtain ⟨rests, _⟩ := stacked_cons_iff.mp stacked
  unfold topPrecedence
  split
  · exact restsOn_operator_iff.mp (rests _ rfl)
  · exact operator.precedence_pos

/-- Above the last parenthesis there are no more operators than the precedence of the latest one says. -/
theorem Stacked.length_le (stacked : Stacked pending) :
    pending.length ≤ 3 * pending.count .openParen + topPrecedence pending := by
  induction pending with
  | nil => exact Nat.le_refl 0
  | cons item pending ih =>
    have inner := ih (stacked_cons_iff.mp stacked).2
    cases item with
    | openParen =>
      have top := topPrecedence_le_two pending
      rw [List.length_cons, List.count_cons_self]
      omega
    | operator operator =>
      have top := topPrecedence_lt stacked
      rw [List.length_cons, List.count_cons_of_ne Pending.noConfusion, topPrecedence]
      omega

/-- Operators that wait on top of each other bind the less tightly the longer they wait, so there are no more
than two. -/
theorem Stacked.segment {above below : List Pending} {segment : List Operator}
    (stacked : Stacked (above ++ segment.map .operator ++ below)) :
    segment.Pairwise (fun upper lower => lower.precedence < upper.precedence) ∧ segment.length ≤ 2 := by
  have inside : Stacked (segment.map .operator) := stacked.left_of_append.right_of_append
  constructor
  · have tighter : segment.IsChain fun upper lower => lower.precedence < upper.precedence :=
      ((List.isChain_map Pending.operator).mp inside).imp fun _ _ => restsOn_operator_iff.mp
    have transitive : IsTrans Operator fun upper lower => lower.precedence < upper.precedence :=
      ⟨fun _ _ _ first second => Nat.lt_trans second first⟩
    exact tighter.pairwise
  · have bound := inside.length_le
    have top := topPrecedence_le_two (segment.map .operator)
    rw [List.length_map, List.count_eq_zero_of_not_mem (by simp)] at bound
    omega

/-! ## The tokens that wait -/

private theorem count_openParen_waiting (state : Conversion) :
    state.waiting.count .openParen = state.pending.count .openParen :=
  List.count_map_of_injective state.pending Pending.token Pending.token_injective .openParen

/-- Operators among the tokens that wait are operators that wait. -/
private theorem exists_of_map_token_eq {above below : List Token} {segment : List Operator}
    (split : pending.map Pending.token = above ++ segment.map .operator ++ below) :
    ∃ outer inner, pending = outer ++ segment.map .operator ++ inner := by
  obtain ⟨front, inner, rfl, fronts, _⟩ := List.map_eq_append_iff.mp split
  obtain ⟨outer, middle, rfl, _, middles⟩ := List.map_eq_append_iff.mp fronts
  have operators : (segment.map Token.operator) = (segment.map Pending.operator).map Pending.token := by
    rw [List.map_map]
    rfl
  rw [operators] at middles
  exact ⟨outer, inner, by rw [List.map_injective_iff.mpr Pending.token_injective middles]⟩

/-- After any tokens that a conversion takes, what waits is parentheses and operators. There is one parenthesis for
each that is still open, and the operators between two of them, and those outside and inside of all, bind the
more tightly the later they came. So there are no more than two of these in a row, and no more than three tokens
for each open parenthesis and two. -/
theorem waiting_of_run {taken : List Token} {state : Conversion} (ran : start.run taken = .ok state) :
    (∀ token ∈ state.waiting, token = .openParen ∨ ∃ operator, token = .operator operator) ∧
      state.waiting.count .openParen + taken.count .closeParen = taken.count .openParen ∧
      (∀ (above below : List Token) (segment : List Operator),
        state.waiting = above ++ segment.map .operator ++ below →
        segment.Pairwise (fun upper lower => lower.precedence < upper.precedence) ∧
          segment.length ≤ 2) ∧
      state.waiting.length ≤ 3 * state.waiting.count .openParen + 2 := by
  have stacked := stacked_of_run ran
  refine ⟨?_, (accounts_of_run ran).opened, ?_, ?_⟩
  · intro token member
    obtain ⟨item, _, rfl⟩ := List.mem_map.mp member
    cases item with
    | openParen => exact .inl rfl
    | operator operator => exact .inr ⟨operator, rfl⟩
  · intro above below segment split
    obtain ⟨outer, inner, waits⟩ := exists_of_map_token_eq split
    rw [waits] at stacked
    exact stacked.segment
  · have bound := stacked.length_le
    have top := topPrecedence_le_two state.pending
    rw [count_openParen_waiting, waiting, List.length_map]
    omega

/-- After `1+2*(3-4/(5` all that can wait does: two operators outside and two in the first group, under the two
parentheses. -/
theorem waiting_of_run_nested :
    start.run [.number "1", .operator .plus, .number "2", .operator .times, .openParen, .number "3",
        .operator .minus, .number "4", .operator .divide, .openParen, .number "5"] =
      .ok ⟨[.number "5", .number "4", .number "3", .number "2", .number "1"],
        [.openParen, .operator .divide, .operator .minus, .openParen, .operator .times,
          .operator .plus]⟩ ∧
      6 ≤ 3 * List.count Token.openParen [.openParen, .operator .divide, .operator .minus, .openParen,
        .operator .times, .operator .plus] + 2 ∧
      [Operator.divide, Operator.minus].Pairwise
        (fun upper lower => lower.precedence < upper.precedence) := by
  have ran : start.run [.number "1", .operator .plus, .number "2", .operator .times, .openParen,
      .number "3", .operator .minus, .number "4", .operator .divide, .openParen, .number "5"] =
        .ok ⟨[.number "5", .number "4", .number "3", .number "2", .number "1"],
          [.openParen, .operator .divide, .operator .minus, .openParen, .operator .times,
            .operator .plus]⟩ := rfl
  obtain ⟨_, _, segments, bound⟩ := waiting_of_run ran
  exact ⟨ran, bound, (segments [.openParen] [.openParen, .operator .times, .operator .plus]
    [.divide, .minus] rfl).1⟩

end Conversion

end LineCalc.Rpn
