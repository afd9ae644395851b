import Mathlib.Data.List.Induction

/-!
# Steps that can fail

What the outcome of two steps in a row says of each, what a whole run of steps preserves, and where it
fails.
-/

set_option autoImplicit false

namespace LineCalc

variable {Cause Value Result State Item : Type}

theorem bind_eq_ok_iff {source : Except Cause Value} {continuation : Value → Except Cause Result}
    {result : Result} :
    source >>= continuation = .ok result ↔
      ∃ value, source = .ok value ∧ continuation value = .ok result := by
  cases source with
  | error cause => simp [bind, Except.bind]
  | ok value => simp [bind, Except.bind]

theorem bind_eq_error_iff {source : Except Cause Value} {continuation : Value → Except Cause Result}
    {cause : Cause} :
    source >>= continuation = .error cause ↔
      source = .error cause ∨ ∃ value, source = .ok value ∧ continuation value = .error cause := by
  cases source with
  | error first => simp [bind, Except.bind]
  | ok value => simp [bind, Except.bind]

/-- What every step preserves holds after a run that does not fail. -/
theorem foldlM_induction {step : State → Item → Except Cause State} (Holds : State → Prop)
    {items : List Item} {start last : State}
    (kept : ∀ state, ∀ item ∈ items, ∀ next, Holds state → step state item = .ok next → Holds next)
    (ran : items.foldlM step start = .ok last) (first : Holds start) : Holds last := by
  induction items generalizing start with
  | nil =>
    cases ran
    exact first
  | cons item items ih =>
    rw [List.foldlM_cons] at ran
    obtain ⟨next, taken, later⟩ := bind_eq_ok_iff.mp ran
    exact ih (fun state other member => kept state other (List.mem_cons_of_mem item member)) later
      (kept start item List.mem_cons_self next first taken)

/-- What is kept up with the items taken so far, one step at a time, holds of all of them after a run that
does not fail. -/
theorem foldlM_prefix_induction {step : State → Item → Except Cause State}
    (Holds : List Item → State → Prop) {items : List Item} {start last : State}
    (kept : ∀ taken state item next, Holds taken state → step state item = .ok next →
      Holds (taken ++ [item]) next)
    (ran : items.foldlM step start = .ok last) (first : Holds [] start) : Holds items last := by
  induction items using List.reverseRecOn generalizing last with
  | nil =>
    cases ran
    exact first
  | append_singleton before item ih =>
    rw [List.foldlM_append, bind_eq_ok_iff] at ran
    obtain ⟨middle, earlier, later⟩ := ran
    rw [List.foldlM_cons, bind_eq_ok_iff] at later
    obtain ⟨_, taken, done⟩ := later
    cases done
    exact kept before middle item last (ih earlier) taken

/-- A run that fails does so at an item, in the state that the items before it lead to. -/
theorem exists_of_foldlM_eq_error {step : State → Item → Except Cause State} {items : List Item}
    {start : State} {cause : Cause} (failed : items.foldlM step start = .error cause) :
    ∃ before item after state, items = before ++ item :: after ∧
      before.foldlM step start = .ok state ∧ step state item = .error cause := by
  induction items generalizing start with
  | nil => cases failed
  | cons item items ih =>
    rw [List.foldlM_cons, bind_eq_error_iff] at failed
    rcases failed with first | ⟨next, taken, later⟩
    · exact ⟨[], item, items, start, rfl, rfl, first⟩
    · obtain ⟨before, other, after, state, rfl, ran, refused⟩ := ih later
      refine ⟨item :: before, other, after, state, rfl, ?_, refused⟩
      rw [List.foldlM_cons, taken]
      exact ran

end LineCalc
