import LineCalc.Proofs.Decimal.Numeral
import LineCalc.Proofs.Token.Spelling

/-!
# Numerals as tokens

Every character of a numeral continues a number. A numeral that starts with a digit is therefore a literal,
and a line that consists of it is one token.
-/

set_option autoImplicit false

namespace LineCalc.Decimal

theorem continuesNumber_of_continuesNumeral {character : Char}
    (continues : continuesNumeral character = true) : Token.continuesNumber character = true := by
  rw [continuesNumeral] at continues
  rw [Token.continuesNumber, continues, Bool.true_or]

namespace Numeral

theorem continuesNumber_of_mem_text (numeral : Numeral) {character : Char}
    (member : character ∈ numeral.text) : Token.continuesNumber character = true :=
  continuesNumber_of_continuesNumeral (numeral.continuesNumeral_of_mem_text member)

/-- A numeral that starts with a digit can be typed as a literal. -/
theorem isLiteral_text (numeral : Numeral) (leading : numeral.whole ≠ []) :
    Token.isLiteral (String.ofList numeral.text) = true := by
  have continues : ∀ character ∈ numeral.text, Token.continuesNumber character = true :=
    fun _ member => numeral.continuesNumber_of_mem_text member
  obtain ⟨whole, fraction?, digits, _⟩ := numeral
  cases whole with
  | nil => exact absurd rfl leading
  | cons first others =>
    have digit : first.isDigit = true :=
      digits first (List.mem_append_left _ List.mem_cons_self)
    rw [Token.isLiteral_iff]
    cases fraction? with
    | none =>
      exact ⟨first, others, String.toList_ofList, digit,
        fun character member => continues character (List.mem_cons_of_mem first member)⟩
    | some fraction =>
      exact ⟨first, others ++ '.' :: fraction, String.toList_ofList, digit,
        fun character member => continues character (List.mem_cons_of_mem first member)⟩

theorem ofLine_text (numeral : Numeral) (leading : numeral.whole ≠ []) :
    Token.ofLine (String.ofList numeral.text) = [.number (String.ofList numeral.text)] := by
  have ended : ∀ character ∈ ([] : List Char).head?, Token.continuesNumber character = false := nofun
  have alone := Token.ofChars_number (numeral.isLiteral_text leading) ended
  rw [List.append_nil, Token.ofChars] at alone
  exact alone

end Numeral

end LineCalc.Decimal
