import LineCalc.Proofs.Phrase.Question

/-!
# Wordings of the question

A wording is a way to type the percentage question: letters of either case, any blanks in the five gaps,
any text around it. The question is found in a wording exactly when each of the first two gaps is a
single space. With another blank there, or a second one, the wording is passed over, and only what is
typed behind it can still be a question.
-/

set_option autoImplicit false

namespace LineCalc

/-! ## Passing over text -/

namespace Phrase

/-- Two occurrences of a word cannot overlap when its first letter does not come again in it. -/
private theorem within?_append_what {before after : List Char} (absent : ¬ "what".toList <:+: before) :
    within? (before ++ 'w' :: after) = within? ('w' :: after) := by
  apply within?_append
  intro rest suffix filled opens
  have word : "what".toList <+: rest ++ 'w' :: after :=
    List.IsPrefix.trans ⟨" percent of".toList, rfl⟩ opens
  rcases List.prefix_or_prefix_of_prefix word (List.prefix_append rest ('w' :: after)) with
    inside | ⟨remainder, across⟩
  · exact absent (inside.isInfix.trans suffix.isInfix)
  · cases remainder with
    | nil =>
      rw [List.append_nil] at across
      exact absent (across ▸ suffix.isInfix)
    | cons next remainder =>
      rw [← across, List.prefix_append_right_inj, List.cons_prefix_cons] at word
      cases rest with
      | nil => exact filled rfl
      | cons first rest =>
        have later : 'w' ∈ "hat".toList := by
          have tail : rest ++ next :: remainder = "hat".toList := (List.cons.inj across).2
          rw [← tail, ← word.1]
          exact List.mem_append_right rest List.mem_cons_self
        exact absurd later (by decide)

end Phrase

/-! ## Wordings -/

/-- The question with the text around it. No earlier `what` is typed, and nothing is typed behind the
second number that would continue it. -/
structure Wording where
  before : List Char
  what : Text.Cased "what"
  toPercent : Text.Gap
  percent : Text.Cased "percent"
  toPreposition : Text.Gap
  preposition : Text.Cased "of"
  toWhole : Text.Gap
  whole : Decimal.Numeral
  toVerb : Text.Gap
  verb : Text.Cased "is"
  toPart : Text.Gap
  part : Decimal.Numeral
  after : List Char
  unasked : ¬ "what".toList <:+: before.map Char.toLower
  ended : Decimal.EndsNumeral after

namespace Wording

theorem unasked_nil : ¬ "what".toList <:+: ([] : List Char).map Char.toLower := by
  decide

def line (wording : Wording) : String :=
  String.ofList (wording.before ++ (wording.what.letters ++ (wording.toPercent.blanks ++
    (wording.percent.letters ++ (wording.toPreposition.blanks ++ (wording.preposition.letters ++
      (wording.toWhole.blanks ++ (wording.whole.text ++ (wording.toVerb.blanks ++
        (wording.verb.letters ++ (wording.toPart.blanks ++
          (wording.part.text ++ wording.after))))))))))))

def phrase (wording : Wording) : Phrase where
  whole := wording.whole.value
  part := wording.part.value

/-- What stands behind the opening words, in lower case. -/
def question (wording : Wording) : List Char :=
  wording.toWhole.blanks ++ (wording.whole.text ++ (wording.toVerb.blanks ++ (Phrase.verb ++
    (wording.toPart.blanks ++ (wording.part.text ++ wording.after.map Char.toLower)))))

/-- From its first letter on, a wording in lower case. -/
theorem ofLine?_line (wording : Wording) :
    Phrase.ofLine? wording.line = Phrase.within? ("what".toList ++ (wording.toPercent.blanks ++
      ("percent".toList ++ (wording.toPreposition.blanks ++ ("of".toList ++ wording.question))))) := by
  have words : "what".toList.map Char.toLower = 'w' :: "hat".toList := by decide
  have percent : "percent".toList.map Char.toLower = "percent".toList := by decide
  have preposition : "of".toList.map Char.toLower = "of".toList := by decide
  have verb : "is".toList.map Char.toLower = Phrase.verb := by decide
  simp only [Phrase.ofLine?, line, String.toList_ofList, List.map_append, Text.Cased.map_toLower,
    Text.Gap.map_toLower, Decimal.Numeral.map_toLower_text, words, percent, preposition, verb]
  rw [List.cons_append, Phrase.within?_append_what wording.unasked]
  rfl

/-- With the opening words before it, the text behind them is a question. -/
def asked (wording : Wording) : Phrase.Question (Phrase.opening ++ wording.question) where
  toWhole := wording.toWhole
  whole := wording.whole
  toVerb := wording.toVerb
  toPart := wording.toPart
  part := wording.part
  rest := wording.after.map Char.toLower
  written := rfl

private theorem atStart?_opening (wording : Wording) :
    Phrase.atStart? (Phrase.opening ++ wording.question) = some wording.phrase :=
  wording.asked.atStart?_of_scan? (wording.part.scan?_text_append wording.ended.map_toLower)

/-- The opening words are found only with single spaces between them. -/
theorem gaps_of_opening {wording : Wording} {rest : List Char}
    (opens : Phrase.opening ++ rest = "what".toList ++ (wording.toPercent.blanks ++
      ("percent".toList ++ (wording.toPreposition.blanks ++ ("of".toList ++ wording.question))))) :
    wording.toPercent.blanks = [' '] ∧ wording.toPreposition.blanks = [' '] := by
  have first : Text.Gap.space.blanks ++ ("percent of".toList ++ rest) = wording.toPercent.blanks ++
      ("percent".toList ++ (wording.toPreposition.blanks ++ ("of".toList ++ wording.question))) :=
    (List.append_right_inj "what".toList).mp opens
  obtain ⟨toPercent, behind⟩ := Text.Gap.append_inj _ _ (by decide) (by decide) first
  have second : Text.Gap.space.blanks ++ ("of".toList ++ rest) =
      wording.toPreposition.blanks ++ ("of".toList ++ wording.question) :=
    (List.append_right_inj "percent".toList).mp behind
  obtain ⟨toPreposition, _⟩ := Text.Gap.append_inj _ _ (by decide) (by decide) second
  exact ⟨toPercent.symm, toPreposition.symm⟩

theorem ofLine?_of_spaces (wording : Wording) (toPercent : wording.toPercent.blanks = [' '])
    (toPreposition : wording.toPreposition.blanks = [' ']) :
    Phrase.ofLine? wording.line = some wording.phrase := by
  have start := wording.atStart?_opening
  rw [ofLine?_line, toPercent, toPreposition]
  change Phrase.within? ('w' :: ("hat percent of".toList ++ wording.question)) = _
  change Phrase.atStart? ('w' :: ("hat percent of".toList ++ wording.question)) = _ at start
  exact Phrase.within?_cons_of_some start

/-- The letters of a wording, in lower case, behind its first one. -/
def behindFirst (wording : Wording) : List Char :=
  "hat".toList ++ (wording.toPercent.blanks ++ ("percent".toList ++ (wording.toPreposition.blanks ++
    ("of".toList ++ (wording.toWhole.blanks ++ (wording.whole.text ++ (wording.toVerb.blanks ++
      (Phrase.verb ++ (wording.toPart.blanks ++ wording.part.text)))))))))

/-- Only the first letter can open a question. -/
private theorem not_mem_behindFirst (wording : Wording) : 'w' ∉ wording.behindFirst := by
  have gap : ∀ gap : Text.Gap, 'w' ∉ gap.blanks := by
    intro gap member
    exact absurd (gap.blank 'w' member) (by decide)
  have numeral : ∀ numeral : Decimal.Numeral, 'w' ∉ numeral.text := by
    intro numeral member
    exact absurd (numeral.continuesNumeral_of_mem_text member) (by decide)
  have words : 'w' ∉ "hat".toList ∧ 'w' ∉ "percent".toList ∧ 'w' ∉ "of".toList ∧ 'w' ∉ Phrase.verb := by
    decide
  simp only [behindFirst, List.mem_append, not_or]
  exact ⟨words.1, gap _, words.2.1, gap _, words.2.2.1, gap _, numeral _, gap _, words.2.2.2, gap _,
    numeral _⟩

private theorem ofLine?_of_gaps (wording : Wording)
    (apart : ¬ (wording.toPercent.blanks = [' '] ∧ wording.toPreposition.blanks = [' '])) :
    Phrase.ofLine? wording.line = Phrase.ofLine? (String.ofList wording.after) := by
  have start : Phrase.atStart? ("what".toList ++ (wording.toPercent.blanks ++ ("percent".toList ++
      (wording.toPreposition.blanks ++ ("of".toList ++ wording.question))))) = none := by
    apply Phrase.atStart?_eq_none
    rintro ⟨rest, opens⟩
    exact apart (gaps_of_opening opens)
  have letters : "what".toList ++ (wording.toPercent.blanks ++ ("percent".toList ++
      (wording.toPreposition.blanks ++ ("of".toList ++ wording.question)))) =
      'w' :: (wording.behindFirst ++ wording.after.map Char.toLower) := by
    simp only [behindFirst, question, List.append_assoc]
    rfl
  rw [letters] at start
  rw [ofLine?_line, letters, Phrase.within?_cons_of_none start, Phrase.ofLine?, String.toList_ofList]
  exact Phrase.within?_append_of_not_mem wording.not_mem_behindFirst

/-- A question is recognised whatever the case of its letters, the blanks from its first number on and
the text around it, but only with single spaces between the words that open it. -/
theorem ofLine?_wording (wording : Wording) :
    Phrase.ofLine? wording.line =
      if wording.toPercent.blanks = [' '] ∧ wording.toPreposition.blanks = [' '] then
        some wording.phrase
      else
        Phrase.ofLine? (String.ofList wording.after) := by
  split
  · rename_i spaces
    exact wording.ofLine?_of_spaces spaces.1 spaces.2
  · rename_i apart
    exact wording.ofLine?_of_gaps apart

example : Phrase.ofLine? "So, WHAT percent oF  2.5\tis .5?" = some ⟨⟨25, 1⟩, ⟨5, 1⟩⟩ := by decide

def twoSpaces : Wording where
  before := []
  what := .plain "what"
  toPercent := {
    blanks := [' ', ' ']
    blank := List.all_eq_true.mp (by decide)
    filled := nofun }
  percent := .plain "percent"
  toPreposition := .space
  preposition := .plain "of"
  toWhole := .space
  whole := {
    whole := ['2', '5']
    fraction? := none
    digits := List.all_eq_true.mp (by decide)
    filled := nofun }
  toVerb := .space
  verb := .plain "is"
  toPart := .space
  part := {
    whole := ['5']
    fraction? := none
    digits := List.all_eq_true.mp (by decide)
    filled := nofun }
  after := []
  unasked := unasked_nil
  ended := Decimal.endsNumeral_nil

/-- With two spaces behind its first word the question is not recognised. -/
theorem ofLine?_twoSpaces :
    twoSpaces.line = "what  percent of 25 is 5" ∧ twoSpaces.phrase = ⟨⟨25, 0⟩, ⟨5, 0⟩⟩ ∧
      Phrase.ofLine? twoSpaces.line = none ∧
      ¬ ∀ wording : Wording, Phrase.ofLine? wording.line = some wording.phrase := by
  have unrecognised : Phrase.ofLine? twoSpaces.line = none := by decide
  refine ⟨by decide, by decide, unrecognised, ?_⟩
  intro recognised
  have found := recognised twoSpaces
  rw [unrecognised] at found
  cases found

end Wording

end LineCalc
