import LineCalc.Proofs.Decimal.Shortest
import LineCalc.Proofs.Token.Numeral

/-!
# The text of a value

A decimal is printed as a numeral that stands for it. The text of a finite value is the numeral of its
shortest decimal, behind a minus if the sign bit is set, so that without the sign it is read back.
-/

set_option autoImplicit false

namespace LineCalc

open Binary64
open Float.Model.UnpackedFloat (Sign)

namespace Decimal

/-! ## Printed decimals -/

private theorem length_printed {places remainder : ℕ} (below : remainder < 10 ^ places)
    (some : places ≠ 0) :
    ((Nat.toDigits 10 remainder).leftpad places '0').length = places := by
  have digits : (Nat.toDigits 10 remainder).length ≤ places :=
    (Nat.length_toDigits_le_iff (by decide) (Nat.pos_of_ne_zero some)).mpr below
  rw [List.length_leftpad, Nat.max_eq_left digits]

private theorem isDigit_of_mem_printed {places remainder : ℕ} {character : Char}
    (member : character ∈ (Nat.toDigits 10 remainder).leftpad places '0') : character.isDigit = true := by
  rw [List.leftpad, List.mem_append] at member
  rcases member with zero | digit
  · obtain rfl := List.eq_of_mem_replicate zero
    decide
  · exact Nat.isDigit_of_mem_toDigits (by decide) (by decide) digit

/-- A decimal as it is printed. -/
def numeral (decimal : Decimal) : Numeral where
  whole := Nat.toDigits 10 (decimal.mantissa / 10 ^ decimal.places)
  fraction? :=
    if decimal.places = 0 then none
    else some ((Nat.toDigits 10 (decimal.mantissa % 10 ^ decimal.places)).leftpad decimal.places '0')
  digits := by
    intro character member
    rcases List.mem_append.mp member with inside | behind
    · exact Nat.isDigit_of_mem_toDigits (by decide) (by decide) inside
    · split at behind
      · cases behind
      · exact isDigit_of_mem_printed behind
  filled := List.append_ne_nil_of_left_ne_nil Nat.toDigits_ne_nil _

theorem whole_numeral_ne_nil (decimal : Decimal) : decimal.numeral.whole ≠ [] :=
  Nat.toDigits_ne_nil

theorem text_numeral (decimal : Decimal) : decimal.numeral.text = decimal.digits := by
  simp only [Numeral.text, numeral, digits, Nat.pow_eq]
  split_ifs <;> rfl

theorem value_numeral (decimal : Decimal) : decimal.numeral.value = decimal := by
  obtain ⟨mantissa, places⟩ := decimal
  rw [← Numeral.ofDigits_eq_value]
  simp only [numeral, ofDigits]
  split
  · rename_i none
    subst none
    simp [Nat.ofDigitChars_toDigits]
  · rename_i some
    have below : mantissa % 10 ^ places < 10 ^ places := Nat.mod_lt _ (Nat.pow_pos (by decide))
    have padded := length_printed below some
    have read : Nat.ofDigitChars 10 ((Nat.toDigits 10 (mantissa % 10 ^ places)).leftpad places '0') 0 =
        mantissa % 10 ^ places := by
      rw [List.leftpad, Nat.ofDigitChars_append, Nat.ofDigitChars_replicate_zero, Nat.mul_zero,
        Nat.ofDigitChars_toDigits (by decide) (by decide)]
    simp only [Option.getD_some, padded, Decimal.mk.injEq, and_true]
    rw [Nat.ofDigitChars_append, Nat.ofDigitChars_toDigits (by decide) (by decide),
      Nat.ofDigitChars_eq_ofDigitChars_zero, padded, read, Nat.div_add_mod]

end Decimal

/-! ## The sign -/

variable {value : Float} {sign : Sign} {magnitude : ℚ}

theorem hasSignBit_iff (denotes : Denotes value sign magnitude) :
    hasSignBit value = true ↔ sign = .negative := by
  obtain ⟨leading, signed, bit⟩ := exists_signed value
  rw [hasSignBit, decide_eq_true_iff, Nat.pow_eq, ← bit]
  cases denotes with
  | zero read =>
    rw [read] at signed
    cases signed
    rfl
  | finite read =>
    rw [read] at signed
    cases signed
    rfl

private theorem isNaN_of_isFinite (finite : value.isFinite = true) : value.isNaN = false := by
  have model : value.isNaN = value.toModel.unpack.isNaN := rfl
  rw [isFinite_eq] at finite
  rw [model]
  cases read : value.toModel.unpack with
  | zero | finite => rfl
  | infinity | notANumber =>
    rw [read] at finite
    cases finite

theorem decimalText_of_positive (denotes : Denotes value .positive magnitude) :
    decimalText value = String.ofList (Decimal.shortest value).numeral.text := by
  have clear : ¬ hasSignBit value = true := mt (hasSignBit_iff denotes).mp nofun
  simp only [decimalText, isNaN_of_isFinite denotes.isFinite, denotes.isFinite, if_neg clear,
    Decimal.text_numeral, if_true, Bool.false_eq_true, if_false]

theorem decimalText_of_negative (denotes : Denotes value .negative magnitude) :
    decimalText value = String.ofList ('-' :: (Decimal.shortest value).numeral.text) := by
  have set := (hasSignBit_iff denotes).mpr rfl
  simp only [decimalText, isNaN_of_isFinite denotes.isFinite, denotes.isFinite, set,
    Decimal.text_numeral, if_true, Bool.false_eq_true, if_false]

theorem shortest_neg (denotes : Denotes value sign magnitude) :
    Decimal.shortest (-value) = Decimal.shortest value := by
  have same : (-value).abs = value.abs := denotes.neg.abs.unique denotes.abs
  simp only [Decimal.shortest, BinaryFraction.ofFloat_neg denotes, same]

/-! ## Reading back -/

theorem ofLine_decimalText (denotes : Denotes value .positive magnitude) :
    Token.ofLine (decimalText value) = [.number (decimalText value)] := by
  rw [decimalText_of_positive denotes]
  exact (Decimal.shortest value).numeral.ofLine_text (Decimal.whole_numeral_ne_nil _)

theorem valueOf_decimalText (denotes : Denotes value .positive magnitude) :
    Literal.valueOf (decimalText value) = .ok value := by
  have same : value.abs = value := denotes.abs.unique denotes
  rw [decimalText_of_positive denotes, Decimal.Numeral.valueOf_text, Decimal.value_numeral,
    (Decimal.isShortest_shortest denotes).reads, same]

theorem decimalText_neg (denotes : Denotes value .negative magnitude) :
    decimalText value = "-" ++ decimalText (-value) := by
  have positive : Denotes (-value) .positive magnitude := denotes.neg
  rw [decimalText_of_negative denotes, decimalText_of_positive positive, shortest_neg denotes,
    ← String.toList_inj]
  simp

/-- The text of a finite value without a sign is one literal that is read as the very value, and with a
sign it is a minus and the text of the value without it. -/
theorem decimalText_of_isFinite (value : Float) (finite : value.isFinite = true) :
    (hasSignBit value = false →
      Token.ofLine (decimalText value) = [.number (decimalText value)] ∧
        Literal.valueOf (decimalText value) = .ok value) ∧
      (hasSignBit value = true → decimalText value = "-" ++ decimalText (-value)) := by
  obtain ⟨sign, magnitude, denotes⟩ := exists_denotes finite
  have bit := hasSignBit_iff denotes
  cases sign with
  | positive =>
    refine ⟨fun _ => ⟨ofLine_decimalText denotes, valueOf_decimalText denotes⟩, fun set => ?_⟩
    cases bit.mp set
  | negative =>
    refine ⟨fun clear => ?_, fun _ => decimalText_neg denotes⟩
    rw [bit.mpr rfl] at clear
    cases clear

/-- The law at a tenth, at its negative and at the smallest positive value. -/
theorem decimalText_of_tenths_and_smallest :
    Token.ofLine "0.1" = [.number "0.1"] ∧ Literal.valueOf "0.1" = .ok 0.1 ∧
      decimalText (-0.1) = "-0.1" ∧
      Literal.valueOf (decimalText (Float.ofBits 1)) = .ok (Float.ofBits 1) := by
  have text : decimalText 0.1 = "0.1" := by decide +kernel
  have opposite : -(-0.1 : Float) = 0.1 := by decide +kernel
  have tenth := (decimalText_of_isFinite 0.1 (by decide +kernel)).1 (by decide +kernel)
  have negative := (decimalText_of_isFinite (-0.1) (by decide +kernel)).2 (by decide +kernel)
  have smallest := (decimalText_of_isFinite (Float.ofBits 1) (by decide +kernel)).1
    (by decide +kernel)
  rw [text] at tenth
  rw [opposite, text] at negative
  exact ⟨tenth.1, tenth.2, negative, smallest.2⟩

end LineCalc
