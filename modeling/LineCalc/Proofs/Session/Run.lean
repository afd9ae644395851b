import LineCalc.Proofs.Evaluation.Stages
import LineCalc.Session

/-!
# Runs of a session

No line has an effect on the action for a later one, and the counters of a session account for the lines
that it has taken in. What is shown for a result is one line, and two more if the steps are wanted and the
result is that of an expression.
-/

set_option autoImplicit false

namespace LineCalc

def Action.isError : Action → Bool
  | .error _ => true
  | _ => false

namespace Session

/-- The session after the last of some lines. -/
def final (session : Session) (lines : List String) : Session :=
  ((session.run lines).map Prod.snd).getLastD session

/-! ## One line -/

/-- What a session can do with a line. -/
inductive Steps (session : Session) (line : String) : Action × Session → Prop where
  | quit (quits : asksToQuit line = true) : Steps session line (.quit, session)
  | result {evaluation : Evaluation} (stays : asksToQuit line = false)
      (evaluated : evaluate session.settings line = .ok evaluation) :
      Steps session line (.result (session.resultLines evaluation),
        { session with evaluations := session.evaluations + 1 })
  | error {cause : EvalError} (stays : asksToQuit line = false)
      (failed : evaluate session.settings line = .error cause) :
      Steps session line (.error ("Error: " ++ cause.message),
        { session with evaluations := session.evaluations + 1, errors := session.errors + 1 })

theorem steps_step (session : Session) (line : String) : Steps session line (session.step line) := by
  rw [step]
  split
  · rename_i quits
    exact .quit quits
  · rename_i stays
    rw [Bool.not_eq_true] at stays
    cases answered : evaluate session.settings line with
    | ok evaluation => exact .result stays answered
    | error cause => exact .error stays answered

/-- The action for a line depends on the parameters of a session and not on its counters. -/
theorem action_congr {left right : Session} (settings : left.settings = right.settings)
    (showTrace : left.showTrace = right.showTrace) (line : String) :
    (left.step line).1 = (right.step line).1 := by
  have shown : left.resultLines = right.resultLines := by
    funext evaluation
    simp only [resultLines, showTrace]
  simp only [step, settings, shown]
  split
  · rfl
  · split <;> rfl

theorem settings_step (session : Session) (line : String) :
    (session.step line).2.settings = session.settings := by
  have steps := session.steps_step line
  generalize session.step line = stepped at steps ⊢
  cases steps <;> rfl

theorem showTrace_step (session : Session) (line : String) :
    (session.step line).2.showTrace = session.showTrace := by
  have steps := session.steps_step line
  generalize session.step line = stepped at steps ⊢
  cases steps <;> rfl

theorem counters_step (session : Session) (line : String) :
    (session.step line).2.evaluations =
        session.evaluations + [line].countP (fun line => !asksToQuit line) ∧
      (session.step line).2.errors = session.errors + [(session.step line).1].countP Action.isError := by
  have steps := session.steps_step line
  generalize session.step line = stepped at steps ⊢
  cases steps with
  | quit quits => simp [quits, Action.isError]
  | result stays => simp [stays, Action.isError]
  | error stays => simp [stays, Action.isError]

private theorem countP_isError_le (session : Session) (line : String) :
    [(session.step line).1].countP Action.isError ≤ [line].countP (fun line => !asksToQuit line) := by
  have steps := session.steps_step line
  generalize session.step line = stepped at steps ⊢
  cases steps with
  | quit quits => simp [Action.isError]
  | result stays => simp [Action.isError]
  | error stays => simp [stays, Action.isError]

/-! ## A run of lines -/

theorem actions_run {session other : Session} (settings : session.settings = other.settings)
    (showTrace : session.showTrace = other.showTrace) (lines : List String) :
    (session.run lines).map Prod.fst = lines.map fun line => (other.step line).1 := by
  induction lines generalizing session with
  | nil => rfl
  | cons line lines ih =>
    simp only [run, List.map_cons]
    rw [action_congr settings showTrace line, ih]
    · rw [settings_step, settings]
    · rw [showTrace_step, showTrace]

theorem parameters_run (session : Session) (lines : List String) :
    ∀ entry ∈ session.run lines,
      entry.2.settings = session.settings ∧ entry.2.showTrace = session.showTrace := by
  induction lines generalizing session with
  | nil => exact nofun
  | cons line lines ih =>
    simp only [run, List.forall_mem_cons]
    refine ⟨⟨settings_step session line, showTrace_step session line⟩, ?_⟩
    intro entry member
    have later := ih (session.step line).2 entry member
    rwa [settings_step, showTrace_step] at later

private theorem final_cons (session : Session) (line : String) (lines : List String) :
    session.final (line :: lines) = (session.step line).2.final lines := by
  simp only [final, run, List.map_cons, List.getLastD_cons]

theorem counters_final (session : Session) (lines : List String) :
    (session.final lines).evaluations =
        session.evaluations + lines.countP (fun line => !asksToQuit line) ∧
      (session.final lines).errors =
        session.errors + ((session.run lines).map Prod.fst).countP Action.isError := by
  induction lines generalizing session with
  | nil => exact ⟨rfl, rfl⟩
  | cons line lines ih =>
    obtain ⟨evaluations, errors⟩ := counters_step session line
    obtain ⟨laterEvaluations, laterErrors⟩ := ih (session.step line).2
    rw [final_cons, laterEvaluations, laterErrors, evaluations, errors]
    simp only [run, List.map_cons, List.countP_cons, List.countP_nil]
    constructor <;> omega

theorem errors_le_evaluations_final {session : Session} (sound : session.errors ≤ session.evaluations)
    (lines : List String) : (session.final lines).errors ≤ (session.final lines).evaluations := by
  induction lines generalizing session with
  | nil => exact sound
  | cons line lines ih =>
    rw [final_cons]
    apply ih
    obtain ⟨evaluations, errors⟩ := counters_step session line
    have refused := countP_isError_le session line
    omega

/-! ## The lines of a result -/

theorem evaluates_of_step {session : Session} {line : String} {shown : List String}
    (answered : (session.step line).1 = .result shown) :
    ∃ evaluation, evaluate session.settings line = .ok evaluation ∧
      shown = session.resultLines evaluation := by
  have steps := session.steps_step line
  generalize session.step line = stepped at steps answered
  cases steps with
  | quit => cases answered
  | result stays evaluated => exact ⟨_, evaluated, (Action.result.inj answered).symm⟩
  | error => cases answered

private theorem resultLines_percentage (session : Session) (answer : Answer) :
    session.resultLines { answer, trace := {} } = [answer.line] := by
  have none : (Token.listText []).isEmpty = true := rfl
  simp [resultLines, none]

private theorem resultLines_number (session : Session) {rpn : List Token} {raw : Float}
    (valued : Rpn.evaluate rpn = .ok raw) (answer : Answer) (tokens : List Token) :
    session.resultLines { answer, trace := { tokens, rpn } } =
      answer.line :: if session.showTrace then
        ["  jetons: " ++ Token.listText tokens, "  rpn: " ++ Token.listText rpn] else [] := by
  have some : (Token.listText rpn).isEmpty = false := by
    rw [Bool.eq_false_iff, Ne, String.isEmpty_iff]
    exact Rpn.listText_ne_empty valued
  simp [resultLines, some]

/-- A run from a fresh session. Each action is the one that a fresh session has for its line, the
parameters stay what they are, the counters are the numbers of lines that do not ask to quit and of errors,
and a result is shown by three lines if it is that of an expression and the steps are wanted, and by one line
otherwise. -/
theorem run_fresh (settings : Settings) (showTrace : Bool) (lines : List String) :
    let fresh : Session := { settings, showTrace }
    let run := fresh.run lines
    run.map Prod.fst = lines.map (fun line => (fresh.step line).1) ∧
    (∀ entry ∈ run, entry.2.settings = settings ∧ entry.2.showTrace = showTrace) ∧
    (fresh.final lines).evaluations = lines.countP (fun line => !asksToQuit line) ∧
    (fresh.final lines).errors = (run.map Prod.fst).countP Action.isError ∧
    (fresh.final lines).errors ≤ (fresh.final lines).evaluations ∧
    ∀ line shown, (fresh.step line).1 = .result shown →
      ∃ evaluation, evaluate settings line = .ok evaluation ∧
        (Phrase.ofLine? line ≠ none → shown = [evaluation.answer.line]) ∧
        (Phrase.ofLine? line = none → ∃ rpn, Rpn.ofTokens (Token.ofLine line) = .ok rpn ∧
          shown = evaluation.answer.line ::
            if showTrace then
              ["  jetons: " ++ Token.listText (Token.ofLine line), "  rpn: " ++ Token.listText rpn]
            else []) := by
  intro fresh run
  obtain ⟨evaluations, errors⟩ := counters_final fresh lines
  refine ⟨actions_run rfl rfl lines, parameters_run fresh lines, ?_, ?_,
    errors_le_evaluations_final (le_refl 0) lines, ?_⟩
  · rw [evaluations, Nat.zero_add]
  · rw [errors, Nat.zero_add]
  · intro line shown answered
    obtain ⟨evaluation, evaluated, rfl⟩ := evaluates_of_step answered
    refine ⟨evaluation, evaluated, ?_⟩
    cases evaluates_of_evaluate evaluated with
    | percentage asked =>
      refine ⟨fun _ => resultLines_percentage fresh _, fun unasked => ?_⟩
      rw [asked] at unasked
      cases unasked
    | number unasked converted valued =>
      exact ⟨fun asked => absurd unasked asked,
        fun _ => ⟨_, converted, resultLines_number fresh valued _ _⟩⟩

/-- The law on a result, an error, a request to quit and a question. -/
theorem run_fresh_of_each_kind :
    let fresh : Session := { showTrace := true }
    let lines := ["1 + 2 * 3", "3 + + 4", " Exit ", "what percent of 4 is 1"]
    (fresh.run lines).map Prod.fst = [
      .result ["= 7 (≈ 7)", "  jetons: 1 + 2 * 3", "  rpn: 1 2 3 * +"],
      .error "Error: expression invalide: opérande manquante", .quit, .result ["= 25%"]] ∧
    (fresh.final lines).evaluations = 3 ∧ (fresh.final lines).errors = 1 := by
  intro fresh lines
  obtain ⟨actions, _, evaluations, errors, _⟩ := run_fresh {} true lines
  have each : lines.map (fun line => (fresh.step line).1) = [
      .result ["= 7 (≈ 7)", "  jetons: 1 + 2 * 3", "  rpn: 1 2 3 * +"],
      .error "Error: expression invalide: opérande manquante", .quit, .result ["= 25%"]] := by
    decide +kernel
  refine ⟨actions.trans each, evaluations.trans (by decide), errors.trans ?_⟩
  rw [actions, each]
  rfl

end Session

end LineCalc
