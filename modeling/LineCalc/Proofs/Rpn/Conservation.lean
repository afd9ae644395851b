import LineCalc.Proofs.Rpn.Literals
import Mathlib.Tactic.ByContra

/-!
# What becomes of the tokens

A conversion loses no token and invents none. An operator that was taken waits or is released, and an
opening parenthesis waits until it is closed. So a closing parenthesis finds its opening one exactly when
it is not one too many, and what was never closed comes out behind every operand.
-/

set_option autoImplicit false

namespace LineCalc.Rpn

namespace Conversion

/-! ## Where the tokens are -/

/-- The tokens that wait, the latest first. -/
def waiting (state : Conversion) : List Token :=
  state.pending.map Pending.token

private theorem count_release (released : List Token) (items : List Pending) (token : Token) :
    (release released items).count token =
      (items.map Pending.token).count token + released.count token := by
  rw [release, List.count_append, List.count_reverse]

private theorem closeParen_not_mem_map (items : List Pending) : .closeParen ∉ items.map Pending.token := by
  intro member
  obtain ⟨item, _, same⟩ := List.mem_map.mp member
  cases item <;> cases same

theorem openParen_mem_map_iff {items : List Pending} :
    .openParen ∈ items.map Pending.token ↔ .openParen ∈ items := by
  constructor
  · intro member
    obtain ⟨item, inside, same⟩ := List.mem_map.mp member
    cases item with
    | openParen => exact inside
    | operator operator => cases same
  · exact fun member => List.mem_map_of_mem member

/-- The tokens taken so far are accounted for: an operand or an operator is released or waits, and an
opening parenthesis waits unless it was closed. -/
structure Accounts (taken : List Token) (state : Conversion) : Prop where
  kept : ∀ token, token ≠ .openParen → token ≠ .closeParen →
    state.released.count token + state.waiting.count token = taken.count token
  opened : state.waiting.count .openParen + taken.count .closeParen = taken.count .openParen
  released : ∀ token ∈ state.released, token ≠ .openParen ∧ token ≠ .closeParen

private theorem accounts_start : Accounts [] start where
  kept := fun _ _ _ => rfl
  opened := rfl
  released := nofun

/-- What waits outside any group that is open can be released at any time. -/
theorem Accounts.release {taken : List Token} {state : Conversion} {leaving staying : List Pending}
    (accounts : Accounts taken state) (waits : leaving ++ staying = state.pending)
    (inside : .openParen ∉ leaving) :
    Accounts taken { released := release state.released leaving, pending := staying } := by
  obtain ⟨kept, opened, released⟩ := accounts
  have unopened : (leaving.map Pending.token).count .openParen = 0 :=
    List.count_eq_zero.mpr fun member => inside (openParen_mem_map_iff.mp member)
  simp only [waiting, ← waits, List.map_append, List.count_append] at kept opened
  constructor
  · intro token opens closes
    have before := kept token opens closes
    simp only [waiting, count_release]
    omega
  · simp only [waiting]
    omega
  · intro token member
    rcases List.mem_append.mp member with moved | already
    · rw [List.mem_reverse] at moved
      constructor
      · rintro rfl
        exact inside (openParen_mem_map_iff.mp moved)
      · rintro rfl
        exact closeParen_not_mem_map leaving moved
    · exact released token already

theorem Accounts.step {taken : List Token} {state next : Conversion} {token : Token}
    (accounts : Accounts taken state) (stepped : state.step token = .ok next) :
    Accounts (taken ++ [token]) next := by
  cases steps_of_step stepped with
  | number literal =>
    obtain ⟨kept, opened, released⟩ := accounts
    constructor
    · intro token opens closes
      have before := kept token opens closes
      simp only [waiting, List.count_cons, List.count_append, List.count_nil] at before ⊢
      omega
    · simpa [waiting] using opened
    · intro token member
      rcases List.mem_cons.mp member with rfl | already
      · exact ⟨by simp, by simp⟩
      · exact released token already
  | operator waits yielding held =>
    obtain ⟨kept, opened, released⟩ :=
      accounts.release waits (openParen_not_mem_of_yielding yielding)
    constructor
    · intro token opens closes
      have before := kept token opens closes
      simp only [waiting, List.map_cons, Pending.token, List.count_cons, List.count_append,
        List.count_nil] at before ⊢
      omega
    · simpa [waiting, Pending.token] using opened
    · exact released
  | openParen =>
    obtain ⟨kept, opened, released⟩ := accounts
    constructor
    · intro token opens closes
      simpa [waiting, Pending.token, List.count_cons, opens.symm] using kept token opens closes
    · simp only [waiting, List.map_cons, Pending.token, List.count_append, List.count_cons,
        List.count_nil, beq_iff_eq, reduceCtorEq, if_true, if_false] at opened ⊢
      omega
    · exact released
  | closeParen waits inside =>
    obtain ⟨kept, opened, released⟩ := accounts.release waits inside
    constructor
    · intro token opens closes
      have before := kept token opens closes
      simpa [waiting, Pending.token, List.count_cons, opens.symm, closes.symm] using before
    · simp only [waiting, List.map_cons, Pending.token, List.count_append, List.count_cons,
        List.count_nil, beq_iff_eq, reduceCtorEq, if_true, if_false] at opened ⊢
      omega
    · exact released

theorem accounts_of_run {tokens : List Token} {state : Conversion}
    (ran : start.run tokens = .ok state) : Accounts tokens state :=
  foldlM_prefix_induction Accounts (fun _ _ _ _ accounts => accounts.step) ran accounts_start

/-! ## When a conversion fails -/

/-- A step fails at a closing parenthesis that would be one too many, and at nothing else. -/
theorem Accounts.exists_step {taken : List Token} {state : Conversion} {token : Token}
    (accounts : Accounts taken state)
    (within : (taken ++ [token]).count .closeParen ≤ (taken ++ [token]).count .openParen) :
    ∃ next, state.step token = .ok next := by
  cases token with
  | number literal => exact ⟨_, rfl⟩
  | operator operator => exact ⟨_, rfl⟩
  | openParen => exact ⟨_, rfl⟩
  | closeParen =>
    have opened := accounts.opened
    simp only [List.count_append, List.count_cons, List.count_nil, beq_iff_eq, reduceCtorEq, if_true,
      if_false] at within
    have member : .openParen ∈ state.pending :=
      openParen_mem_map_iff.mp (List.count_pos_iff.mp (by rw [waiting] at opened; omega))
    obtain ⟨leaving, outside, waits, inside⟩ := List.eq_append_cons_of_mem member
    obtain ⟨released, pending⟩ := state
    obtain rfl : pending = _ := waits
    exact ⟨_, step_closeParen released outside inside⟩

theorem exists_run {tokens : List Token}
    (within : ∀ part, part <+: tokens → part.count .closeParen ≤ part.count .openParen) :
    ∃ state, start.run tokens = .ok state := by
  cases ran : start.run tokens with
  | ok state => exact ⟨state, rfl⟩
  | error cause =>
    obtain ⟨before, token, after, state, rfl, earlier, refused⟩ := exists_of_foldlM_eq_error ran
    obtain ⟨next, stepped⟩ := (accounts_of_run earlier).exists_step
      (within (before ++ [token]) ⟨after, by rw [List.append_assoc, List.singleton_append]⟩)
    rw [stepped] at refused
    cases refused

theorem within_of_run {tokens part : List Token} {state : Conversion}
    (ran : start.run tokens = .ok state) (before : part <+: tokens) :
    part.count .closeParen ≤ part.count .openParen := by
  obtain ⟨rest, rfl⟩ := before
  rw [run_append, bind_eq_ok_iff] at ran
  obtain ⟨middle, first, _⟩ := ran
  have opened := (accounts_of_run first).opened
  omega

/-! ## What comes out -/

theorem finish_eq (state : Conversion) : state.finish = state.released.reverse ++ state.waiting := by
  rw [finish, release, List.reverse_append, List.reverse_reverse, waiting]

private theorem count_finish (state : Conversion) (token : Token) :
    state.finish.count token = state.released.count token + state.waiting.count token := by
  rw [finish_eq, List.count_append, List.count_reverse]

private theorem Accounts.closeParen_not_mem_finish {tokens : List Token} {state : Conversion}
    (accounts : Accounts tokens state) : .closeParen ∉ state.finish := by
  rw [finish_eq, List.mem_append, List.mem_reverse, not_or]
  exact ⟨fun member => (accounts.released _ member).2 rfl, closeParen_not_mem_map state.pending⟩

private theorem Accounts.count_openParen_finish {tokens : List Token} {state : Conversion}
    (accounts : Accounts tokens state) :
    state.finish.count .openParen + tokens.count .closeParen = tokens.count .openParen := by
  have unreleased : state.released.count .openParen = 0 :=
    List.count_eq_zero.mpr fun member => (accounts.released _ member).1 rfl
  rw [count_finish, unreleased, Nat.zero_add, accounts.opened]

private theorem Accounts.count_operator_finish {tokens : List Token} {state : Conversion}
    (accounts : Accounts tokens state) (operator : Operator) :
    state.finish.count (.operator operator) = tokens.count (.operator operator) := by
  rw [count_finish, accounts.kept (.operator operator) nofun nofun]

/-- A parenthesis that is never closed comes out behind all that was released before the end, and so
behind every operand. -/
theorem Accounts.literals_behind_openParen {tokens before after : List Token} {state : Conversion}
    (accounts : Accounts tokens state) (split : state.finish = before ++ .openParen :: after) :
    Token.literals after = [] := by
  rw [finish_eq] at split
  have none := literals_map_token state.pending
  rw [← waiting] at none
  rcases List.append_eq_append_iff.mp split with ⟨_, _, waits⟩ | ⟨between, releases, rest⟩
  · rw [waits, Token.literals_append, List.append_eq_nil_iff] at none
    exact none.2
  · cases between with
    | nil =>
      rw [List.nil_append] at rest
      rwa [← rest] at none
    | cons token between =>
      obtain ⟨rfl, _⟩ := List.cons_eq_cons.mp rest
      have member : .openParen ∈ state.released :=
        List.mem_reverse.mp (releases ▸ List.mem_append_right before List.mem_cons_self)
      exact absurd rfl (accounts.released _ member).1

end Conversion

private theorem exists_ofTokens {tokens : List Token}
    (within : ∀ part, part <+: tokens → part.count .closeParen ≤ part.count .openParen) :
    ∃ state, ofTokens tokens = .ok state.finish ∧ Conversion.Accounts tokens state := by
  obtain ⟨state, ran⟩ := Conversion.exists_run within
  refine ⟨state, ?_, Conversion.accounts_of_run ran⟩
  rw [ofTokens, ran]
  rfl

theorem ofTokens_eq_error_iff {tokens : List Token} {cause : EvalError} :
    ofTokens tokens = .error cause ↔
      cause = .unmatchedClose ∧
        ∃ part, part <+: tokens ∧ part.count .openParen < part.count .closeParen := by
  constructor
  · intro failed
    refine ⟨error_of_ofTokens failed, ?_⟩
    by_contra! within
    obtain ⟨state, converted, _⟩ := exists_ofTokens within
    rw [converted] at failed
    cases failed
  · intro exceeds
    obtain ⟨rfl, part, before, exceeds⟩ := exceeds
    cases ran : Conversion.start.run tokens with
    | error cause =>
      obtain rfl := Conversion.error_of_run ran
      rw [ofTokens, ran]
      rfl
    | ok state => exact absurd (Conversion.within_of_run ran before) (Nat.not_le.mpr exceeds)

/-- A conversion fails exactly when some first part of the tokens has more closing parentheses than opening
ones, and always for that reason. Otherwise the result has no closing parenthesis, the opening ones that
are never closed behind every operand, the literals in their order, and each operator as often as it was
taken. -/
theorem ofTokens_outcome (tokens : List Token) :
    (∀ cause, ofTokens tokens = .error cause ↔
      cause = .unmatchedClose ∧
        ∃ part, part <+: tokens ∧ part.count .openParen < part.count .closeParen) ∧
    ((∀ part, part <+: tokens → part.count .closeParen ≤ part.count .openParen) →
      ∃ rpn, ofTokens tokens = .ok rpn ∧
        .closeParen ∉ rpn ∧
        rpn.count .openParen + tokens.count .closeParen = tokens.count .openParen ∧
        (∀ before after, rpn = before ++ .openParen :: after → Token.literals after = []) ∧
        Token.literals rpn = Token.literals tokens ∧
        ∀ operator, rpn.count (.operator operator) = tokens.count (.operator operator)) := by
  refine ⟨fun cause => ofTokens_eq_error_iff, ?_⟩
  intro within
  obtain ⟨state, converted, accounts⟩ := exists_ofTokens within
  exact ⟨state.finish, converted, accounts.closeParen_not_mem_finish, accounts.count_openParen_finish,
    fun before after => accounts.literals_behind_openParen, literals_ofTokens converted,
    accounts.count_operator_finish⟩

/-- Two groups of `1+(2*(3` are never closed. -/
example : ofTokens [.number "1", .operator .plus, .openParen, .number "2", .operator .times, .openParen,
    .number "3"] = .ok [.number "1", .number "2", .number "3", .openParen, .operator .times, .openParen,
      .operator .plus] := rfl

end LineCalc.Rpn
