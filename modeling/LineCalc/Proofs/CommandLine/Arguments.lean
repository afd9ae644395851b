import LineCalc.CommandLine.Arguments
import LineCalc.Proofs.Failure

/-!
# Accepted arguments

Whatever an argument does to what was read before it is one of a few things. So the settings of a request
are in the ranges of their options, and after options that are accepted an expression can be given behind
`--`.
-/

set_option autoImplicit false

namespace LineCalc.CommandLine

/-- The values that an option takes. -/
def NumberOption.Allows (option : NumberOption) (value : Int) : Prop :=
  option.least ≤ value ∧ value ≤ option.greatest

private theorem NumberOption.allows_of_readValue? {option : NumberOption} {text : List Char} {value : Int}
    (read : option.readValue? text = some value) : option.Allows value := by
  rw [readValue?, Option.bind_eq_bind, Option.bind_eq_some_iff] at read
  obtain ⟨integer, _, checked⟩ := read
  split at checked
  · rename_i allowed
    obtain rfl := Option.some.inj checked
    exact allowed
  · cases checked

namespace Reading

/-- What an argument can do to a reading. -/
inductive Steps (reading : Reading) (argument : String) : Reading → Prop where
  | expression : Steps reading argument { reading with expression := some argument }
  | decimals {value : Int} (allowed : NumberOption.decimals.Allows value) :
      Steps reading argument { reading with expected := .anything, decimals := some value }
  | maxDenominator {value : Int} (allowed : NumberOption.maxDenominator.Allows value) :
      Steps reading argument { reading with expected := .anything, maxDenominator := some value }
  | flag (showTrace : Bool) : Steps reading argument { reading with showTrace }
  | option (option : NumberOption) : Steps reading argument { reading with expected := .valueOf option }
  | ended (marker : argument = "--") : Steps reading argument { reading with expected := .ordinary }

private theorem steps_of_takeExpression {reading next : Reading} {argument : String}
    (taken : reading.takeExpression argument = .ok next) : Steps reading argument next := by
  unfold takeExpression at taken
  split at taken
  · cases taken
    exact .expression
  · cases taken

private theorem steps_of_takeValue {reading next : Reading} {argument : String} {option : NumberOption}
    {text : List Char} (taken : reading.takeValue option text = .ok next) :
    Steps reading argument next := by
  simp only [takeValue] at taken
  split at taken
  · rename_i read
    cases taken
    exact .decimals (NumberOption.allows_of_readValue? read)
  · rename_i read
    cases taken
    exact .maxDenominator (NumberOption.allows_of_readValue? read)
  · cases taken

private theorem exists_showTrace_of_takeFlag {reading next : Reading} {flag : Flag}
    (taken : reading.takeFlag flag = .ok next) : ∃ showTrace, next = { reading with showTrace } := by
  cases flag with
  | rpn =>
    simp only [takeFlag] at taken
    split at taken
    · cases taken
    · cases taken
      exact ⟨true, rfl⟩
  | verbose =>
    cases taken
    exact ⟨reading.showTrace, rfl⟩
  | help => cases taken
  | version => cases taken

private theorem steps_of_takeLong {reading next : Reading} {argument : String} {text : List Char}
    (taken : reading.takeLong text = .ok next) : Steps reading argument next := by
  simp only [takeLong] at taken
  split at taken
  · cases taken
    exact .option _
  · exact steps_of_takeValue taken
  · obtain ⟨showTrace, rfl⟩ := exists_showTrace_of_takeFlag taken
    exact .flag showTrace
  · cases taken

private theorem exists_showTrace_of_letters {reading next : Reading} {letters : List Char}
    (taken : letters.foldlM takeLetter reading = .ok next) :
    ∃ showTrace, next = { reading with showTrace } := by
  refine foldlM_induction (fun state => ∃ showTrace, state = { reading with showTrace }) ?_ taken
    ⟨reading.showTrace, rfl⟩
  rintro _ letter _ later ⟨before, rfl⟩ flagged
  unfold takeLetter at flagged
  split at flagged
  · obtain ⟨showTrace, rfl⟩ := exists_showTrace_of_takeFlag flagged
    exact ⟨showTrace, rfl⟩
  · cases flagged

theorem steps_of_step {reading next : Reading} {argument : String}
    (taken : reading.step argument = .ok next) : Steps reading argument next := by
  unfold step at taken
  split at taken
  · exact steps_of_takeExpression taken
  · cases taken
  · exact steps_of_takeValue taken
  · rename_i marker
    cases taken
    exact .ended (String.toList_inj.mp marker)
  · exact steps_of_takeLong taken
  · obtain ⟨showTrace, rfl⟩ := exists_showTrace_of_letters taken
    exact .flag showTrace
  · exact steps_of_takeExpression taken

/-! ## The values of the options -/

/-- The values that were read are allowed. -/
structure InRange (reading : Reading) : Prop where
  decimals : ∀ value ∈ reading.decimals, NumberOption.decimals.Allows value
  maxDenominator : ∀ value ∈ reading.maxDenominator, NumberOption.maxDenominator.Allows value

theorem InRange.step {reading next : Reading} {argument : String} (ranged : reading.InRange)
    (steps : Steps reading argument next) : next.InRange := by
  cases steps with
  | expression => exact ⟨ranged.decimals, ranged.maxDenominator⟩
  | decimals allowed => exact ⟨fun _ same => Option.some.inj same ▸ allowed, ranged.maxDenominator⟩
  | maxDenominator allowed => exact ⟨ranged.decimals, fun _ same => Option.some.inj same ▸ allowed⟩
  | flag showTrace => exact ⟨ranged.decimals, ranged.maxDenominator⟩
  | option option => exact ⟨ranged.decimals, ranged.maxDenominator⟩
  | ended marker => exact ⟨ranged.decimals, ranged.maxDenominator⟩

theorem InRange.run {arguments : List String} {last : Reading}
    (ran : arguments.foldlM Reading.step {} = .ok last) : last.InRange :=
  foldlM_induction InRange (fun _ _ _ _ ranged taken => ranged.step (steps_of_step taken)) ran
    ⟨nofun, nofun⟩

/-- Only the marker ends the options. -/
private theorem expected_ne_ordinary {arguments : List String} {last : Reading} (unended : "--" ∉ arguments)
    (ran : arguments.foldlM Reading.step {} = .ok last) : last.expected ≠ .ordinary := by
  refine foldlM_induction (fun reading => reading.expected ≠ .ordinary) ?_ ran nofun
  intro reading argument member next options taken
  cases steps_of_step taken with
  | expression => exact options
  | decimals => exact nofun
  | maxDenominator => exact nofun
  | flag => exact options
  | option => exact nofun
  | ended marker => exact absurd (marker ▸ member) unended

end Reading

/-! ## Requests -/

/-- The settings that the options can have. -/
structure SettingsInRange (settings : Settings) : Prop where
  decimals : settings.decimals ≤ 10
  least : 1 ≤ settings.maxDenominator
  greatest : settings.maxDenominator ≤ 1000000

theorem settingsInRange_of_read {arguments : List String} {request : Request}
    (accepted : read arguments = .ok request) : SettingsInRange request.settings := by
  obtain ⟨reading, ran, finished⟩ := bind_eq_ok_iff.mp accepted
  obtain ⟨decimals, maxDenominator⟩ := Reading.InRange.run ran
  unfold Reading.finish at finished
  split at finished
  · cases finished
  · cases finished
    have usualDecimals : (2 : Nat) ≤ 10 := by decide
    have usualLimit : (1 : Int) ≤ 5000 ∧ (5000 : Int) ≤ 1000000 := by decide
    refine ⟨?_, ?_, ?_⟩
    · cases given : reading.decimals with
      | none => exact usualDecimals
      | some value => exact Int.toNat_le.mpr (decimals value given).2
    · cases given : reading.maxDenominator with
      | none => exact usualLimit.1
      | some value => exact (maxDenominator value given).1
    · cases given : reading.maxDenominator with
      | none => exact usualLimit.2
      | some value => exact (maxDenominator value given).2

/-- Behind options that are accepted the marker makes an expression of whatever text follows. -/
theorem read_append_expression {options : List String} {request : Request}
    (accepted : read options = .ok request) (free : request.expression = none)
    (unended : "--" ∉ options) (line : String) :
    read (options ++ ["--", line]) = .ok { request with expression := some line } := by
  obtain ⟨reading, ran, finished⟩ := bind_eq_ok_iff.mp accepted
  have among := Reading.expected_ne_ordinary unended ran
  rw [read, List.foldlM_append, ran]
  obtain ⟨decimals, maxDenominator, showTrace, expression, expected⟩ := reading
  cases expected with
  | ordinary => exact absurd rfl among
  | valueOf option => cases finished
  | anything =>
    cases finished
    obtain rfl : expression = none := free
    rfl

end LineCalc.CommandLine
