import LineCalc.Proofs.Phrase.Absence
import LineCalc.Proofs.Token.Numeral

/-!
# Gaps between words and numbers

A gap is a run of blanks, at least one, and it ends at the first character that is none. Neither gaps nor
numerals change in lower case, and words do not depend on the case of their letters.
-/

set_option autoImplicit false

namespace LineCalc

namespace Phrase

/-- Only letters come of letters. -/
private theorem toLower_eq_self_of_le {character : Char} (bound : character.toLower.toNat ≤ 64) :
    character.toLower = character := by
  by_cases upper : character.val ≥ 'A'.val ∧ character.val ≤ 'Z'.val
  · have lower : 65 ≤ character.val.toNat := upper.1
    have above : character.val.toNat ≤ 90 := upper.2
    have shift : ('a'.val - 'A'.val).toNat = 32 := rfl
    rw [Char.toLower, dif_pos upper, Char.toNat, UInt32.toNat_add, shift] at bound
    omega
  · rw [Char.toLower, dif_neg upper]

end Phrase

namespace Text

/-- Blanks between two words, at least one. -/
structure Gap where
  blanks : List Char
  blank : ∀ character ∈ blanks, isBlank character = true
  filled : blanks ≠ []

def Gap.space : Gap where
  blanks := [' ']
  blank := List.all_eq_true.mp (by decide)
  filled := nofun

/-- The letters of a word, each in either case. -/
structure Cased (word : String) where
  letters : List Char
  same : sameLetters letters word.toList = true

def Cased.plain (word : String) : Cased word where
  letters := word.toList
  same := beq_self_eq_true _

theorem Cased.map_toLower {word : String} (cased : Cased word) :
    cased.letters.map Char.toLower = word.toList.map Char.toLower :=
  beq_iff_eq.mp cased.same

theorem Gap.map_toLower (gap : Gap) : gap.blanks.map Char.toLower = gap.blanks := by
  have each : ∀ character ∈ gap.blanks, character.toLower = character := by
    intro character member
    apply Phrase.toLower_eq_self
    have bounds := Token.toNat_of_isBlank (gap.blank character member)
    omega
  rw [List.map_congr_left each, List.map_id']

private theorem Gap.takeWhile_append (gap : Gap) {character : Char} (visible : isBlank character = false)
    (rest : List Char) :
    (gap.blanks ++ character :: rest).takeWhile isBlank = gap.blanks ∧
      (gap.blanks ++ character :: rest).dropWhile isBlank = character :: rest := by
  apply cut_append gap.blank
  intro first found
  cases found
  exact visible

/-- A gap ends at the first character that is no blank. -/
theorem Gap.append_inj (left right : Gap) {first second : Char} {leftRest rightRest : List Char}
    (leftVisible : isBlank first = false) (rightVisible : isBlank second = false)
    (same : left.blanks ++ first :: leftRest = right.blanks ++ second :: rightRest) :
    left.blanks = right.blanks ∧ first :: leftRest = second :: rightRest := by
  obtain ⟨leftTaken, leftDropped⟩ := left.takeWhile_append leftVisible leftRest
  obtain ⟨rightTaken, rightDropped⟩ := right.takeWhile_append rightVisible rightRest
  rw [same] at leftTaken leftDropped
  exact ⟨leftTaken.symm.trans rightTaken, leftDropped.symm.trans rightDropped⟩

theorem Gap.afterBlanks?_append (gap : Gap) {character : Char} (visible : isBlank character = false)
    (rest : List Char) :
    afterBlanks? (gap.blanks ++ character :: rest) = some (character :: rest) := by
  obtain ⟨blanks, blank, filled⟩ := gap
  cases blanks with
  | nil => exact absurd rfl filled
  | cons first blanks =>
    have inner : ∀ other ∈ blanks, isBlank other = true :=
      fun other member => blank other (List.mem_cons_of_mem first member)
    rw [List.cons_append, afterBlanks?, if_pos (blank first List.mem_cons_self),
      List.dropWhile_append_of_pos inner, List.dropWhile_cons_of_neg (by simp [visible])]

theorem Gap.endsNumeral_append (gap : Gap) (rest : List Char) :
    Decimal.EndsNumeral (gap.blanks ++ rest) := by
  obtain ⟨blanks, blank, filled⟩ := gap
  cases blanks with
  | nil => exact absurd rfl filled
  | cons first blanks =>
    have outside := Token.continuesNumber_of_isBlank (blank first List.mem_cons_self)
    simp only [Token.continuesNumber, Bool.or_eq_false_iff] at outside
    apply Decimal.endsNumeral_cons
    rw [Decimal.continuesNumeral, outside.1.1, outside.1.2]
    rfl

end Text

namespace Decimal

theorem EndsNumeral.map_toLower {rest : List Char} (ends : EndsNumeral rest) :
    EndsNumeral (rest.map Char.toLower) := by
  cases rest with
  | nil => exact endsNumeral_nil
  | cons character rest =>
    apply endsNumeral_cons
    cases continues : continuesNumeral character.toLower with
    | false => rfl
    | true =>
      have bounds := Token.toNat_of_continuesNumber (continuesNumber_of_continuesNumeral continues)
      rw [Phrase.toLower_eq_self_of_le (by omega)] at continues
      exact continues.symm.trans (ends character rfl)

theorem Numeral.map_toLower_text (numeral : Numeral) :
    numeral.text.map Char.toLower = numeral.text := by
  have each : ∀ character ∈ numeral.text, character.toLower = character := by
    intro character member
    have bounds := Token.toNat_of_continuesNumber (numeral.continuesNumber_of_mem_text member)
    exact Phrase.toLower_eq_self (.inl bounds.2)
  rw [List.map_congr_left each, List.map_id']

/-- A numeral begins with a character that ends a gap. -/
private theorem Numeral.exists_text_eq_cons (numeral : Numeral) :
    ∃ first rest, numeral.text = first :: rest ∧ Text.isBlank first = false := by
  cases written : numeral.text with
  | nil => exact absurd written numeral.text_ne_nil
  | cons first rest =>
    refine ⟨first, rest, rfl, ?_⟩
    have inside : first ∈ numeral.text := by
      rw [written]
      exact List.mem_cons_self
    have continues := numeral.continuesNumber_of_mem_text inside
    rw [Bool.eq_false_iff]
    intro blank
    rw [Token.continuesNumber_of_isBlank blank] at continues
    cases continues

end Decimal

namespace Text

theorem Gap.afterBlanks?_numeral (gap : Gap) (numeral : Decimal.Numeral) (rest : List Char) :
    afterBlanks? (gap.blanks ++ (numeral.text ++ rest)) = some (numeral.text ++ rest) := by
  obtain ⟨first, others, written, visible⟩ := numeral.exists_text_eq_cons
  rw [written, List.cons_append]
  exact gap.afterBlanks?_append visible (others ++ rest)

end Text

end LineCalc
