import LineCalc.Proofs.CommandLine.Conversation
import LineCalc.Proofs.Session.Output

/-!
# What the program prints

Everything that is printed falls into whole lines. The ranges of the options keep the decimal places few and
the denominators in reach, so each of these lines that starts like a result is the clean line of one.
-/

set_option autoImplicit false

namespace LineCalc.CommandLine

/-- A line as the program prints it under some settings. -/
structure PrintedLine (settings : Settings) (line : String) : Prop where
  unbroken : '\n' ∉ line.toList
  clean : line.toList.head? = some '=' → CleanLine settings line

theorem cleanLine_of_step {session : Session} (ranged : SettingsInRange session.settings) (line : String)
    {shown : String} (member : shown ∈ (session.step line).1.lines)
    (opens : shown.toList.head? = some '=') : CleanLine session.settings shown := by
  have steps := session.steps_step line
  generalize session.step line = stepped at steps member
  cases steps with
  | quit => cases member
  | result stays evaluated =>
    rcases List.mem_cons.mp member with rfl | step
    · have few := ranged.decimals
      exact cleanLine_of_evaluates (by omega) ranged.least (evaluates_of_evaluate evaluated)
    · split at step
      · simp only [List.mem_cons, List.not_mem_nil, or_false] at step
        rcases step with rfl | rfl <;> simp at opens
      · cases step
  | error =>
    obtain rfl := List.mem_singleton.mp member
    simp at opens

theorem printedLine_of_step {session : Session} (ranged : SettingsInRange session.settings)
    (line : String) : ∀ shown ∈ (session.step line).1.lines, PrintedLine session.settings shown :=
  fun shown member => {
    unbroken := session.newline_not_mem_step line shown member
    clean := cleanLine_of_step ranged line member }

/-- A conversation prints such lines, also if one that is no text breaks it off. -/
theorem exists_lines_of_converse {session : Session} (ranged : SettingsInRange session.settings)
    (lines : List (Option String)) :
    ∃ printed, (converse session lines).output = Text.joinLines printed ∧
      ∀ shown ∈ printed, PrintedLine session.settings shown := by
  induction lines generalizing session with
  | nil => exact ⟨[], rfl, nofun⟩
  | cons input lines ih =>
    cases input with
    | none => exact ⟨[], rfl, nofun⟩
    | some line =>
      rw [converse]
      by_cases quits : Session.asksToQuit line = true
      · rw [reply_of_quits quits]
        exact ⟨[], rfl, nofun⟩
      · have kept := session.settings_step line
        obtain ⟨later, output, each⟩ := ih (kept.symm ▸ ranged)
        rw [kept] at each
        rw [reply_some quits]
        refine ⟨(session.step line).1.lines ++ later, ?_, ?_⟩
        · rw [Text.joinLines_append, ← output]
        · intro shown member
          rcases List.mem_append.mp member with first | behind
          · exact printedLine_of_step ranged line shown first
          · exact each shown behind

/-- The texts that are printed without a session hold no line that starts like a result. It is their bytes that
are searched. -/
theorem exists_lines_of_stop (stop : Stop) :
    ∃ printed, stop.outcome.output = Text.joinLines printed ∧
      ∀ shown ∈ printed, '\n' ∉ shown.toList ∧ shown.toList.head? ≠ some '=' := by
  suffices ∃ printed, stop.outcome.output = Text.joinLines printed ∧
      ∀ shown ∈ printed, Text.newline ∉ Text.bytes shown ∧ (Text.bytes shown).head? ≠ some 61 by
    obtain ⟨printed, output, each⟩ := this
    exact ⟨printed, output, fun shown member =>
      ⟨mt Text.newline_mem_bytes_iff.mpr (each shown member).1,
        mt (Text.head?_bytes rfl) (each shown member).2⟩⟩
  cases stop with
  | help => exact ⟨helpLines, rfl, by decide +kernel⟩
  | version => exact ⟨[programName ++ " 0.1.0"], rfl, by decide +kernel⟩
  | usageError => exact ⟨[], rfl, nofun⟩

theorem exists_lines_of_run (arguments : List String) (input : ByteArray) :
    ∃ printed, (run arguments input).output = Text.joinLines printed ∧
      ∀ shown ∈ printed, '\n' ∉ shown.toList ∧ (shown.toList.head? = some '=' →
        ∃ request, read arguments = .ok request ∧ CleanLine request.settings shown) := by
  cases accepted : read arguments with
  | error stop =>
    obtain ⟨printed, output, each⟩ := exists_lines_of_stop stop
    rw [run, start, accepted]
    exact ⟨printed, output, fun shown member =>
      ⟨(each shown member).1, fun opens => absurd opens (each shown member).2⟩⟩
  | ok request =>
    have ranged := settingsInRange_of_read accepted
    suffices ∃ printed, (run arguments input).output = Text.joinLines printed ∧
        ∀ shown ∈ printed, PrintedLine request.settings shown by
      obtain ⟨printed, output, each⟩ := this
      exact ⟨printed, output, fun shown member =>
        ⟨(each shown member).unbroken, fun opens => ⟨request, rfl, (each shown member).clean opens⟩⟩⟩
    rw [run, start, accepted]
    cases given : request.expression with
    | none =>
      simp only [given]
      exact exists_lines_of_converse ranged _
    | some line =>
      simp only [given]
      exact ⟨(request.session.step line).1.lines, rfl, printedLine_of_step ranged line⟩

/-- Each line that the program prints for any arguments and any input is the clean line of a result if it
starts like one, with the places and the denominators that the accepted options allow. -/
theorem cleanLine_of_run (arguments : List String) (input : ByteArray) {line : List Char}
    (printed : line ∈ (run arguments input).output.toList.splitOn '\n')
    (opens : line.head? = some '=') :
    ∃ request, read arguments = .ok request ∧ CleanLine request.settings (String.ofList line) := by
  obtain ⟨lines, output, each⟩ := exists_lines_of_run arguments input
  rw [output, Text.splitOn_joinLines fun shown member => (each shown member).1] at printed
  rcases List.mem_append.mp printed with shown | last
  · obtain ⟨text, member, rfl⟩ := List.mem_map.mp shown
    rw [String.ofList_toList]
    exact (each text member).2 opens
  · rw [List.mem_singleton.mp last] at opens
    cases opens

/-- The law on a negative fraction that is rounded. -/
theorem cleanLine_of_run_two_thirds :
    (run ["--decimals", "3", "--max-denominator", "7", "1/3 - 1"] .empty).output =
        "= -2/3 (≈ -0.667)\n" ∧
      ∃ request, read ["--decimals", "3", "--max-denominator", "7", "1/3 - 1"] = .ok request ∧
        CleanLine request.settings "= -2/3 (≈ -0.667)" := by
  have output : (run ["--decimals", "3", "--max-denominator", "7", "1/3 - 1"] .empty).output =
      "= -2/3 (≈ -0.667)\n" := by decide +kernel
  refine ⟨output, ?_⟩
  have printed : "= -2/3 (≈ -0.667)".toList ∈
      (run ["--decimals", "3", "--max-denominator", "7", "1/3 - 1"] .empty).output.toList.splitOn '\n' := by
    rw [output]
    decide
  exact cleanLine_of_run _ _ printed rfl

end LineCalc.CommandLine
