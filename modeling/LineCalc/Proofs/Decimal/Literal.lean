import LineCalc.Proofs.Decimal.Rounding
import LineCalc.Proofs.Decimal.Run

/-!
# Texts that are literals

The literals are the numerals, and the texts of two numerals with a slash between them. Their values are the
rounded numbers that are written, and the quotients of two such values. Any other text is rejected as a whole.
-/

set_option autoImplicit false

namespace LineCalc

namespace Literal

open Decimal (Numeral IsNumeral)
open Binary64 (Rounded)

/-- The texts of a literal. -/
inductive Spells : Literal → List Char → Prop where
  | decimal (numeral : Numeral) : Spells (.decimal numeral.value) numeral.text
  | fraction (numerator denominator : Numeral) :
      Spells (.fraction numerator.value denominator.value)
        (numerator.text ++ '/' :: denominator.text)

private theorem spells_of_ofChars? {text : List Char} {literal : Literal}
    (read : ofChars? text = some literal) : Spells literal text := by
  by_cases slashed : '/' ∈ text
  · obtain ⟨numerator, denominator, rfl, absent⟩ := List.eq_append_cons_of_mem slashed
    obtain ⟨taken, dropped⟩ := cut_separator absent denominator
    simp only [ofChars?, taken, dropped, bind, Option.bind_eq_some_iff, pure, Option.some.injEq] at read
    obtain ⟨above, aboveRead, below, belowRead, rfl⟩ := read
    obtain ⟨first, rfl, rfl⟩ := Numeral.exists_of_parse? aboveRead
    obtain ⟨second, rfl, rfl⟩ := Numeral.exists_of_parse? belowRead
    exact .fraction first second
  · obtain ⟨taken, dropped⟩ := cut_of_not_mem slashed
    simp only [ofChars?, taken, dropped, Option.map_eq_some_iff] at read
    obtain ⟨value, parsed, rfl⟩ := read
    obtain ⟨numeral, rfl, rfl⟩ := Numeral.exists_of_parse? parsed
    exact .decimal numeral

theorem Spells.valueOf {text : String} {literal : Literal} (spells : Spells literal text.toList) :
    Literal.valueOf text = .ok literal.toFloat := by
  generalize written : text.toList = letters at spells
  obtain rfl : String.ofList letters = text := by rw [← written, String.ofList_toList]
  cases spells with
  | decimal numeral => exact numeral.valueOf_text
  | fraction numerator denominator => exact numerator.valueOf_text_slash_text denominator

theorem valueOf_eq_ok_iff {text : String} {value : Float} :
    valueOf text = .ok value ↔ ∃ literal, Spells literal text.toList ∧ literal.toFloat = value := by
  constructor
  · intro read
    rw [valueOf] at read
    split at read
    · rename_i literal found
      cases read
      exact ⟨literal, spells_of_ofChars? found, rfl⟩
    · cases read
  · rintro ⟨literal, spells, rfl⟩
    exact spells.valueOf

theorem exists_spells_iff {text : List Char} :
    (∃ literal, Spells literal text) ↔ IsNumeral text ∨
      ∃ numerator denominator, text = numerator ++ '/' :: denominator ∧
        IsNumeral numerator ∧ IsNumeral denominator := by
  constructor
  · rintro ⟨literal, spells⟩
    cases spells with
    | decimal numeral => exact .inl numeral.isNumeral_text
    | fraction numerator denominator =>
      exact .inr ⟨_, _, rfl, numerator.isNumeral_text, denominator.isNumeral_text⟩
  · rintro (whole | ⟨numerator, denominator, rfl, above, below⟩)
    · obtain ⟨numeral, rfl⟩ := Decimal.isNumeral_iff.mp whole
      exact ⟨_, .decimal numeral⟩
    · obtain ⟨first, rfl⟩ := Decimal.isNumeral_iff.mp above
      obtain ⟨second, rfl⟩ := Decimal.isNumeral_iff.mp below
      exact ⟨_, .fraction first second⟩

/-- A text has a value exactly when it is a numeral, or two numerals with a slash between them. The value of
a numeral is its number, rounded to the nearest binary64 value, and that of two numerals is the quotient of
their values, also where it is infinite or not a number. Every other text is rejected, and the error holds all
of it. -/
theorem valueOf_outcome (text : String) :
    ((∃ value, valueOf text = .ok value) ↔ IsNumeral text.toList ∨
      ∃ numerator denominator, text.toList = numerator ++ '/' :: denominator ∧
        IsNumeral numerator ∧ IsNumeral denominator) ∧
    (∀ numeral : Numeral, text.toList = numeral.text →
      ∃ value, valueOf text = .ok value ∧ Rounded value .positive numeral.value.number) ∧
    (∀ numerator denominator : Numeral, text.toList = numerator.text ++ '/' :: denominator.text →
      ∃ above below, valueOf text = .ok (above / below) ∧
        Rounded above .positive numerator.value.number ∧
        Rounded below .positive denominator.value.number) ∧
    ((¬ ∃ value, valueOf text = .ok value) → valueOf text = .error (.invalidNumber text)) := by
  refine ⟨?_, ?_, ?_, ?_⟩
  · rw [← exists_spells_iff]
    simp only [valueOf_eq_ok_iff]
    exact ⟨fun ⟨_, literal, spells, _⟩ => ⟨literal, spells⟩,
      fun ⟨literal, spells⟩ => ⟨_, literal, spells, rfl⟩⟩
  · intro numeral written
    have spells : Spells _ text.toList := written ▸ Spells.decimal numeral
    exact ⟨_, spells.valueOf, numeral.value.rounded_toFloat⟩
  · intro numerator denominator written
    have spells : Spells _ text.toList := written ▸ Spells.fraction numerator denominator
    exact ⟨_, _, spells.valueOf, numerator.value.rounded_toFloat, denominator.value.rounded_toFloat⟩
  · intro unread
    rw [valueOf]
    cases read : ofChars? text.toList with
    | some literal => exact absurd ⟨_, (spells_of_ofChars? read).valueOf⟩ unread
    | none => rfl

end Literal

end LineCalc
