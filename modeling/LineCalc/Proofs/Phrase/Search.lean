import LineCalc.Proofs.Phrase.Question
import LineCalc.Proofs.Phrase.Wording

/-!
# The first question of a line

A line is read as the question that stands leftmost in it, and it is read as an expression only if there is none.
Opening words that no question follows hide nothing behind them. They have no second `w` either, so the search can
go on behind them instead of at their second letter.
-/

set_option autoImplicit false

namespace LineCalc

/-- What stands behind each occurrence of a word, of which the next is looked for behind the one before. -/
def Text.behindEach (word : List Char) : List Char → List (List Char)
  | [] => []
  | character :: rest =>
    if word.isPrefixOf (character :: rest) then
      rest.drop (word.length - 1) :: behindEach word (rest.drop (word.length - 1))
    else
      behindEach word rest
termination_by text => text.length
decreasing_by
  · simp only [List.length_drop, List.length_cons]
    omega
  · simp only [List.length_cons]
    omega

namespace Phrase

private theorem atStart?_drop_nil (place : Nat) : atStart? (([] : List Char).drop place) = none := by
  rw [List.drop_nil]
  rfl

/-! ## Places -/

theorem within?_eq_none_iff {text : List Char} :
    within? text = none ↔ ∀ place, atStart? (text.drop place) = none := by
  induction text with
  | nil => exact ⟨fun _ => atStart?_drop_nil, fun _ => rfl⟩
  | cons character rest ih =>
    cases read : atStart? (character :: rest) with
    | some phrase =>
      rw [within?_cons_of_some read]
      constructor
      · exact nofun
      · intro none
        cases read.symm.trans (none 0)
    | none =>
      rw [within?_cons_of_none read, ih]
      constructor
      · intro none place
        cases place with
        | zero => exact read
        | succ place => exact none place
      · exact fun none place => none (place + 1)

theorem within?_eq_some_iff {text : List Char} {phrase : Phrase} :
    within? text = some phrase ↔ ∃ place, (∀ earlier < place, atStart? (text.drop earlier) = none) ∧
      atStart? (text.drop place) = some phrase := by
  induction text with
  | nil =>
    constructor
    · exact nofun
    · rintro ⟨place, _, read⟩
      cases (atStart?_drop_nil place).symm.trans read
  | cons character rest ih =>
    cases read : atStart? (character :: rest) with
    | some first =>
      rw [within?_cons_of_some read]
      constructor
      · exact fun same => ⟨0, nofun, read.trans same⟩
      · rintro ⟨place, before, found⟩
        cases place with
        | zero => exact read.symm.trans found
        | succ place => cases read.symm.trans (before 0 (Nat.succ_pos place))
    | none =>
      rw [within?_cons_of_none read, ih]
      constructor
      · rintro ⟨place, before, found⟩
        refine ⟨place + 1, ?_, found⟩
        intro earlier within
        cases earlier with
        | zero => exact read
        | succ earlier => exact before earlier (Nat.lt_of_succ_lt_succ within)
      · rintro ⟨place, before, found⟩
        cases place with
        | zero => cases read.symm.trans found
        | succ place =>
          exact ⟨place, fun earlier within => before (earlier + 1) (Nat.succ_lt_succ within), found⟩

/-! ## Occurrences of the opening words -/

private theorem within?_opening_append {behind : List Char}
    (incomplete : atStart? (opening ++ behind) = none) :
    within? (opening ++ behind) = within? behind := by
  have once : 'w' ∉ "hat percent of".toList := by decide
  exact (within?_cons_of_none incomplete).trans (within?_append_of_not_mem once)

/-- The search can go on behind opening words that no question follows. -/
theorem within?_eq_findSome? (text : List Char) :
    within? text = (Text.behindEach opening text).findSome? fun behind => atStart? (opening ++ behind) := by
  induction text using Text.behindEach.induct opening with
  | case1 =>
    rw [Text.behindEach]
    rfl
  | case2 character rest opens ih =>
    rw [Text.behindEach, if_pos opens, List.findSome?_cons]
    obtain ⟨behind, written⟩ := List.isPrefixOf_iff_prefix.mp opens
    have dropped : rest.drop (opening.length - 1) = behind := by
      rw [← (List.cons.inj written).2]
      rfl
    rw [dropped] at ih ⊢
    cases read : atStart? (opening ++ behind) with
    | some phrase =>
      rw [written] at read
      exact within?_cons_of_some read
    | none => rw [← written, within?_opening_append read, ih]
  | case3 character rest other ih =>
    have read : atStart? (character :: rest) = none :=
      atStart?_eq_none (mt List.isPrefixOf_iff_prefix.mpr other)
    rw [Text.behindEach, if_neg other, within?_cons_of_none read, ih]

/-! ## Lines -/

/-- What stands in a line from a place on, in lower case. -/
def fromPlace (line : String) (place : Nat) : List Char :=
  (line.toList.map Char.toLower).drop place

/-- A line holds no question exactly when none stands at any place. Otherwise it is read as the question at the
first place where one stands, with both numbers as long as they can be. The same is found by a search through the
occurrences of the opening words that do not overlap. -/
theorem ofLine?_outcome (line : String) :
    (ofLine? line = none ↔ ∀ place, IsEmpty (Question (fromPlace line place))) ∧
    (∀ phrase, ofLine? line = some phrase ↔
      ∃ place, (∀ earlier < place, IsEmpty (Question (fromPlace line earlier))) ∧
        ∃ question : Question (fromPlace line place), question.Longest ∧ question.phrase = phrase) ∧
    ofLine? line = (Text.behindEach opening (fromPlace line 0)).findSome? fun behind =>
      atStart? (opening ++ behind) := by
  refine ⟨?_, ?_, within?_eq_findSome? _⟩
  · rw [ofLine?, within?_eq_none_iff]
    simp only [atStart?_eq_none_iff, fromPlace]
  · intro phrase
    rw [ofLine?, within?_eq_some_iff]
    simp only [atStart?_eq_none_iff, atStart?_eq_some_iff, fromPlace]

/-- The opening words at the start of the first two lines are followed by no number, and by no verb. -/
example : ofLine? "what percent of what percent of 1.2 is 3.4.5" = some ⟨⟨12, 1⟩, ⟨34, 1⟩⟩ ∧
    ofLine? "what percent of 8 What Percent Of .5 is 2" = some ⟨⟨5, 1⟩, ⟨2, 0⟩⟩ ∧
    ofLine? "what percent of 8 is . what percent of 8" = none := by
  decide

end Phrase

end LineCalc
