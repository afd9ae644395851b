import LineCalc.CommandLine.Program
import LineCalc.Proofs.CommandLine.Arguments
import LineCalc.Proofs.Session.Run
import LineCalc.Proofs.Text.Lines

/-!
# Conversations and single evaluations

A conversation prints what single evaluations of its lines print, one after the other, up to the first line
that asks to quit.
-/

set_option autoImplicit false

namespace LineCalc

theorem Session.action_eq_quit_iff (session : Session) (line : String) :
    (session.step line).1 = .quit ↔ asksToQuit line = true := by
  have steps := session.steps_step line
  generalize session.step line = stepped at steps ⊢
  cases steps with
  | quit quits => exact iff_of_true rfl quits
  | result stays => exact iff_of_false nofun (Bool.eq_false_iff.mp stays)
  | error stays => exact iff_of_false nofun (Bool.eq_false_iff.mp stays)

namespace CommandLine

theorem reply_some {session : Session} {line : String} (stays : ¬ Session.asksToQuit line = true) :
    reply session (some line) =
      .say (Text.joinLines (session.step line).1.lines) (session.step line).2 := by
  have other : (session.step line).1 ≠ .quit := mt (session.action_eq_quit_iff line).mp stays
  simp only [reply]

theorem reply_of_quits {session : Session} {line : String} (quits : Session.asksToQuit line = true) :
    reply session (some line) = .stop 0 := by
  have action := (session.action_eq_quit_iff line).mpr quits
  simp only [reply]
  split
  · rfl
  · rename_i apart answered
    rw [answered] at action
    exact absurd action apart

/-- A conversation over lines with a text prints the actions of its lines up to the first that asks to quit,
each as a session with the same parameters has it, whatever both have counted. -/
theorem converse_some {session other : Session} (settings : session.settings = other.settings)
    (showTrace : session.showTrace = other.showTrace) (lines : List String) :
    converse session (lines.map some) = {
      exitCode := 0
      output := String.join ((lines.takeWhile fun line => !Session.asksToQuit line).map
        fun line => Text.joinLines (other.step line).1.lines) } := by
  induction lines generalizing session with
  | nil => rfl
  | cons line lines ih =>
    rw [List.map_cons, converse]
    by_cases quits : Session.asksToQuit line = true
    · rw [reply_of_quits quits, List.takeWhile_cons_of_neg (by simp [quits])]
      rfl
    · rw [reply_some quits, List.takeWhile_cons_of_pos (by simp [quits]), List.map_cons, String.join_cons,
        ← Session.action_congr settings showTrace line]
      have later := ih ((session.settings_step line).trans settings)
        ((session.showTrace_step line).trans showTrace)
      simp only [later]

private theorem map_decode?_splitLines {lines : List String} (single : ∀ line ∈ lines, Text.IsLine line) :
    (Text.splitLines (Text.joinLines lines).toUTF8.data.toList).map Text.decode? = lines.map some := by
  have split := Text.splitLines_joinLines single
  rw [Text.bytes] at split
  rw [split, List.map_map]
  exact List.map_congr_left fun line _ => Text.decode?_bytes line

theorem evaluateOnce_eq (session : Session) (line : String) :
    evaluateOnce session line = {
      exitCode := if (session.step line).1.isError then 1 else 0
      output := Text.joinLines (session.step line).1.lines } := by
  simp only [evaluateOnce]
  cases (session.step line).1 <;> rfl

theorem run_append_expression {options : List String} {request : Request}
    (accepted : read options = .ok request) (free : request.expression = none)
    (unended : "--" ∉ options) (line : String) (input : ByteArray) :
    run (options ++ ["--", line]) input = evaluateOnce request.session line := by
  rw [run, start, read_append_expression accepted free unended]
  rfl

/-- With options alone the program prints for the lines of its input what it prints for each of them as an
expression behind the options, up to the first line that asks to quit. It ends with the code 0, and a single
evaluation with the code 1 exactly if the action is an error. The marker `--` is no option: it ends them, and
the expression stands behind it. -/
theorem run_joinLines {options : List String} {request : Request} (accepted : read options = .ok request)
    (free : request.expression = none) (unended : "--" ∉ options) {lines : List String}
    (single : ∀ line ∈ lines, Text.IsLine line) (input : ByteArray) :
    run options (Text.joinLines lines).toUTF8 = {
      exitCode := 0
      output := String.join ((lines.takeWhile fun line => !Session.asksToQuit line).map
        fun line => (run (options ++ ["--", line]) input).output) } ∧
    ∀ line, (run (options ++ ["--", line]) input).exitCode =
      if (request.session.step line).1.isError then 1 else 0 := by
  have once : ∀ line, run (options ++ ["--", line]) input = evaluateOnce request.session line :=
    fun line => run_append_expression accepted free unended line input
  simp only [once, evaluateOnce_eq]
  refine ⟨?_, fun _ => trivial⟩
  rw [run, start, accepted]
  simp only [free, map_decode?_splitLines single]
  exact converse_some rfl rfl lines

/-- The law on a result, an empty line, an error and a line that no answer comes to. -/
theorem run_joinLines_until_exit :
    run ["--decimals", "3", "--rpn"] (Text.joinLines ["1.5*3", "", " EXIT", "1"]).toUTF8 = {
      exitCode := 0
      output := String.join
        [(run ["--decimals", "3", "--rpn", "--", "1.5*3"] .empty).output,
          (run ["--decimals", "3", "--rpn", "--", ""] .empty).output] } ∧
    (run ["--decimals", "3", "--rpn", "--", "1.5*3"] .empty).exitCode = 0 ∧
    (run ["--decimals", "3", "--rpn", "--", ""] .empty).exitCode = 1 := by
  let request : Request := { settings := { decimals := 3 }, showTrace := true }
  have accepted : read ["--decimals", "3", "--rpn"] = .ok request := by decide
  have single : ∀ line ∈ ["1.5*3", "", " EXIT", "1"], Text.IsLine line := by
    intro line member
    have each : ["1.5*3", "", " EXIT", "1"].all
        (fun line => '\n' ∉ line.toList && line.toList.getLast? ≠ some '\r') = true := by decide
    have both := List.all_eq_true.mp each line member
    simp only [Bool.and_eq_true, decide_eq_true_eq] at both
    exact ⟨both.1, both.2⟩
  obtain ⟨conversation, codes⟩ := run_joinLines accepted rfl (by decide) single .empty
  refine ⟨conversation.trans ?_, (codes "1.5*3").trans ?_, (codes "").trans ?_⟩
  · rfl
  · have answered : (request.session.step "1.5*3").1.isError = false := by decide +kernel
    rw [answered]
    rfl
  · have refused : (request.session.step "").1.isError = true := by decide +kernel
    rw [refused]
    rfl

end CommandLine

end LineCalc
