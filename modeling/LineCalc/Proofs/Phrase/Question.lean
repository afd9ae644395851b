import LineCalc.Proofs.Decimal.Run
import LineCalc.Proofs.Phrase.Gap

/-!
# Questions at the start of a text

A text in lower case starts with a question when the opening words, a number, the verb and another number stand
there, with gaps between them. The reader never goes back over a blank or a digit that it has taken. It misses no
question for that, because a gap ends at its first visible character and the first number ends at a gap, and it
takes as much of the second number as there is.
-/

set_option autoImplicit false

namespace LineCalc

private theorem Text.Gap.exists_of_afterBlanks? {text rest : List Char}
    (skipped : afterBlanks? text = some rest) : ∃ gap : Gap, gap.blanks ++ rest = text := by
  cases text with
  | nil => cases skipped
  | cons character others =>
    rw [afterBlanks?, Option.ite_none_right_eq_some] at skipped
    obtain ⟨blank, same⟩ := skipped
    obtain rfl := Option.some_inj.mp same
    refine ⟨⟨character :: others.takeWhile isBlank, ?_, List.cons_ne_nil _ _⟩, ?_⟩
    · intro other member
      rcases List.mem_cons.mp member with rfl | inside
      · exact blank
      · exact List.mem_takeWhile_imp inside
    · rw [List.cons_append, List.takeWhile_append_dropWhile]

private theorem Text.Gap.afterBlanks?_verb (gap : Gap) (rest : List Char) :
    afterBlanks? (gap.blanks ++ (Phrase.verb ++ rest)) = some (Phrase.verb ++ rest) :=
  gap.afterBlanks?_append (by decide) _

namespace Phrase

private theorem isPrefixOf?_append (word rest : List Char) : word.isPrefixOf? (word ++ rest) = some rest :=
  List.isPrefixOf?_eq_some_iff_append_eq.mpr rfl

/-- A question that a text in lower case starts with. -/
structure Question (text : List Char) where
  toWhole : Text.Gap
  whole : Decimal.Numeral
  toVerb : Text.Gap
  toPart : Text.Gap
  part : Decimal.Numeral
  rest : List Char
  written : opening ++ (toWhole.blanks ++ (whole.text ++ (toVerb.blanks ++ (verb ++
    (toPart.blanks ++ (part.text ++ rest)))))) = text

namespace Question

variable {text : List Char}

def phrase (question : Question text) : Phrase where
  whole := question.whole.value
  part := question.part.value

/-- No question that the text starts with has a longer number. -/
def Longest (question : Question text) : Prop :=
  ∀ other : Question text, other.whole.text.length ≤ question.whole.text.length ∧
    other.part.text.length ≤ question.part.text.length

/-- The reader finds a question, with the number that it reads in the place of the second one. -/
theorem atStart?_of_scan? (question : Question text) {part : Decimal} {left : List Char}
    (read : Decimal.scan? (question.part.text ++ question.rest) = some (part, left)) :
    atStart? text = some { whole := question.whole.value, part } := by
  obtain ⟨toWhole, whole, toVerb, toPart, number, rest, rfl⟩ := question
  have wholeRead := whole.scan?_text_append
    (toVerb.endsNumeral_append (verb ++ (toPart.blanks ++ (number.text ++ rest))))
  simp only [atStart?, isPrefixOf?_append, Text.Gap.afterBlanks?_numeral, wholeRead,
    Text.Gap.afterBlanks?_verb, read, Option.bind_eq_bind, Option.bind_some]
  rfl

theorem exists_of_atStart? {phrase : Phrase} (read : atStart? text = some phrase) :
    Nonempty (Question text) := by
  simp only [atStart?, Option.bind_eq_bind, Option.bind_eq_some_iff] at read
  obtain ⟨afterOpening, opened, atWhole, wholeGap, ⟨whole, afterWhole⟩, wholeRead, atVerb, verbGap,
    afterVerb, verbRead, atPart, partGap, ⟨part, rest⟩, partRead, _⟩ := read
  obtain ⟨toWhole, rfl⟩ := Text.Gap.exists_of_afterBlanks? wholeGap
  obtain ⟨first, _, rfl, _⟩ := Decimal.Numeral.exists_of_scan? wholeRead
  obtain ⟨toVerb, rfl⟩ := Text.Gap.exists_of_afterBlanks? verbGap
  obtain rfl := List.isPrefixOf?_eq_some_iff_append_eq.mp verbRead
  obtain ⟨toPart, rfl⟩ := Text.Gap.exists_of_afterBlanks? partGap
  obtain ⟨second, _, rfl, _⟩ := Decimal.Numeral.exists_of_scan? partRead
  exact ⟨toWhole, first, toVerb, toPart, second, rest,
    List.isPrefixOf?_eq_some_iff_append_eq.mp opened⟩

/-- The readers of gaps and numbers leave one rest, so two questions at the start of a text have the same first
number, and their second numbers start at the same place. -/
theorem places_eq (first second : Question text) :
    first.whole.text = second.whole.text ∧
      first.part.text ++ first.rest = second.part.text ++ second.rest := by
  have fromWhole := (List.append_right_inj opening).mp (first.written.trans second.written.symm)
  have atWhole := congrArg Text.afterBlanks? fromWhole
  rw [Text.Gap.afterBlanks?_numeral, Text.Gap.afterBlanks?_numeral, Option.some_inj] at atWhole
  have read := congrArg Decimal.scan? atWhole
  rw [Decimal.Numeral.scan?_text_append _ (first.toVerb.endsNumeral_append _),
    Decimal.Numeral.scan?_text_append _ (second.toVerb.endsNumeral_append _), Option.some_inj] at read
  have fromVerb := (Prod.mk.inj read).2
  have atVerb := congrArg Text.afterBlanks? fromVerb
  rw [Text.Gap.afterBlanks?_verb, Text.Gap.afterBlanks?_verb, Option.some_inj] at atVerb
  have fromPart := (List.append_right_inj verb).mp atVerb
  have atPart := congrArg Text.afterBlanks? fromPart
  rw [Text.Gap.afterBlanks?_numeral, Text.Gap.afterBlanks?_numeral, Option.some_inj] at atPart
  rw [fromVerb] at atWhole
  exact ⟨List.append_left_injective _ atWhole, atPart⟩

/-- Where the text starts with a question, the reader finds the longest. -/
theorem exists_longest (question : Question text) :
    ∃ longest : Question text, longest.Longest ∧ atStart? text = some longest.phrase := by
  obtain ⟨part, left, read⟩ := question.part.exists_scan? question.rest
  have found := question.atStart?_of_scan? read
  obtain ⟨number, rfl, split, longest⟩ := Decimal.Numeral.exists_of_scan? read
  refine ⟨{ question with part := number, rest := left, written := ?_ }, ?_, found⟩
  · rw [split]
    exact question.written
  · intro other
    obtain ⟨whole, part⟩ := other.places_eq question
    exact ⟨(congrArg List.length whole).le, longest other.part ⟨other.rest, part⟩⟩

theorem Longest.phrase_eq {first second : Question text} (firstLongest : first.Longest)
    (secondLongest : second.Longest) : first.phrase = second.phrase := by
  obtain ⟨whole, fromPart⟩ := first.places_eq second
  have length := Nat.le_antisymm (secondLongest first).2 (firstLongest second).2
  have part := (List.append_inj fromPart length).1
  rw [phrase, phrase, Decimal.Numeral.value_congr whole, Decimal.Numeral.value_congr part]

end Question

theorem atStart?_eq_none_iff {text : List Char} : atStart? text = none ↔ IsEmpty (Question text) := by
  constructor
  · intro missing
    refine ⟨fun question => ?_⟩
    obtain ⟨_, _, found⟩ := question.exists_longest
    rw [missing] at found
    cases found
  · intro none
    cases read : atStart? text with
    | none => rfl
    | some phrase => exact (not_nonempty_iff.mpr none (Question.exists_of_atStart? read)).elim

theorem atStart?_eq_some_iff {text : List Char} {phrase : Phrase} :
    atStart? text = some phrase ↔ ∃ question : Question text, question.Longest ∧ question.phrase = phrase := by
  constructor
  · intro read
    obtain ⟨question⟩ := Question.exists_of_atStart? read
    obtain ⟨longest, isLongest, found⟩ := question.exists_longest
    exact ⟨longest, isLongest, Option.some_inj.mp (found.symm.trans read)⟩
  · rintro ⟨question, isLongest, rfl⟩
    obtain ⟨longest, otherLongest, found⟩ := question.exists_longest
    rw [found, otherLongest.phrase_eq isLongest]

end Phrase

end LineCalc
