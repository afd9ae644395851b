import LineCalc.Literal
import LineCalc.Proofs.Cut
import Mathlib.Data.List.Induction
import Mathlib.Data.Nat.Digits.Defs

/-!
# Numerals

A numeral is a decimal as it is written, and stands for its digits in base ten. The reader of whole texts
and the reader of starts both find the decimal that it stands for, the latter whatever follows that does not
continue the numeral, and as a literal it has the value of that decimal. The reader of whole texts reads
nothing but numerals.
-/

set_option autoImplicit false

namespace LineCalc.Decimal

/-- The characters of numerals. -/
def continuesNumeral (character : Char) : Bool :=
  character.isDigit || character == '.'

/-- A text behind a numeral that has nothing to add to it. -/
def EndsNumeral (rest : List Char) : Prop :=
  ∀ character ∈ rest.head?, continuesNumeral character = false

theorem endsNumeral_nil : EndsNumeral [] :=
  nofun

theorem endsNumeral_cons {character : Char} {rest : List Char}
    (ends : continuesNumeral character = false) : EndsNumeral (character :: rest) := by
  intro other found
  obtain rfl := Option.some_inj.mp found
  exact ends

private theorem EndsNumeral.digits {digits rest : List Char} (ends : EndsNumeral rest)
    (each : ∀ character ∈ digits, character.isDigit = true) :
    (digits ++ rest).takeWhile Char.isDigit = digits ∧
      (digits ++ rest).dropWhile Char.isDigit = rest := by
  apply cut_append each
  intro character first
  have other := ends character first
  simp only [continuesNumeral, Bool.or_eq_false_iff] at other
  exact other.1

/-! ## The reader of starts -/

private theorem scan?_digits_append {whole rest : List Char}
    (digits : ∀ character ∈ whole, character.isDigit = true) (filled : whole ≠ [])
    (ends : EndsNumeral rest) : scan? (whole ++ rest) = some (ofDigits whole [], rest) := by
  obtain ⟨taken, dropped⟩ := ends.digits digits
  simp only [scan?, taken, dropped]
  split
  · rename_i afterPoint
    exact absurd (ends '.' rfl) (by decide)
  · simp [filled]

private theorem scan?_pointed_append {whole fraction rest : List Char}
    (digits : ∀ character ∈ whole ++ fraction, character.isDigit = true)
    (filled : whole ++ fraction ≠ []) (ends : EndsNumeral rest) :
    scan? (whole ++ '.' :: (fraction ++ rest)) = some (ofDigits whole fraction, rest) := by
  have point : ∀ character ∈ ('.' :: (fraction ++ rest)).head?, character.isDigit = false := by
    intro character first
    cases first
    decide
  obtain ⟨wholeTaken, wholeDropped⟩ :=
    cut_append (fun character member => digits character (List.mem_append_left _ member)) point
  obtain ⟨taken, dropped⟩ :=
    ends.digits fun character member => digits character (List.mem_append_right whole member)
  simp only [scan?, wholeTaken, wholeDropped, taken, dropped, List.isEmpty_iff, filled, if_false]

/-! ## The reader of whole texts -/

theorem point_not_mem_of_digits {digits : List Char}
    (each : ∀ character ∈ digits, character.isDigit = true) : '.' ∉ digits :=
  fun member => absurd (each '.' member) (by decide)

theorem parse?_digits {whole : List Char}
    (digits : ∀ character ∈ whole, character.isDigit = true) (filled : whole ≠ []) :
    parse? whole = some (ofDigits whole []) := by
  obtain ⟨taken, dropped⟩ := cut_of_not_mem (point_not_mem_of_digits digits)
  simp only [parse?, taken, dropped, List.drop_nil, List.append_nil]
  simp [List.all_eq_true.mpr digits, filled]

theorem parse?_pointed {whole fraction : List Char}
    (digits : ∀ character ∈ whole ++ fraction, character.isDigit = true)
    (filled : whole ++ fraction ≠ []) :
    parse? (whole ++ '.' :: fraction) = some (ofDigits whole fraction) := by
  have wholeDigits : ∀ character ∈ whole, character.isDigit = true :=
    fun character member => digits character (List.mem_append_left _ member)
  have fractionDigits : ∀ character ∈ fraction, character.isDigit = true :=
    fun character member => digits character (List.mem_append_right whole member)
  obtain ⟨taken, dropped⟩ := cut_separator (point_not_mem_of_digits wholeDigits) fraction
  simp only [parse?, taken, dropped, List.drop_succ_cons, List.drop_zero]
  rw [List.all_eq_true.mpr wholeDigits, List.all_eq_true.mpr fractionDigits, if_pos]
  simpa using filled

/-! ## Numerals -/

/-- Reading digits from left to right gives the number that they are in base ten. -/
theorem ofDigitChars_eq_ofDigits (digits : List Char) :
    Nat.ofDigitChars 10 digits 0 =
      Nat.ofDigits 10 (digits.reverse.map fun digit => digit.toNat - '0'.toNat) := by
  induction digits using List.reverseRecOn with
  | nil => rfl
  | append_singleton digits digit ih =>
    rw [Nat.ofDigitChars_append, Nat.ofDigitChars_cons, Nat.ofDigitChars_nil, ih, List.reverse_append,
      List.reverse_singleton, List.singleton_append, List.map_cons, Nat.ofDigits_cons]
    exact Nat.add_comm _ _

/-- Digits and, behind a point if there is one, further digits. There is a digit on at least one side. -/
structure Numeral where
  whole : List Char
  fraction? : Option (List Char)
  digits : ∀ character ∈ whole ++ fraction?.getD [], character.isDigit = true
  filled : whole ++ fraction?.getD [] ≠ []

namespace Numeral

/-- The characters as they are written. -/
def text (numeral : Numeral) : List Char :=
  match numeral.fraction? with
  | none => numeral.whole
  | some fraction => numeral.whole ++ '.' :: fraction

/-- The decimal that is written: all digits in base ten, the last one counting units, with as many places as
there are digits behind the point. -/
def value (numeral : Numeral) : Decimal where
  mantissa := Nat.ofDigits 10
    ((numeral.whole ++ numeral.fraction?.getD []).reverse.map fun digit => digit.toNat - '0'.toNat)
  places := (numeral.fraction?.getD []).length

theorem ofDigits_eq_value (numeral : Numeral) :
    ofDigits numeral.whole (numeral.fraction?.getD []) = numeral.value := by
  rw [ofDigits, ofDigitChars_eq_ofDigits, value]

theorem continuesNumeral_of_mem_text (numeral : Numeral) {character : Char}
    (member : character ∈ numeral.text) : continuesNumeral character = true := by
  obtain ⟨whole, fraction?, digits, _⟩ := numeral
  unfold continuesNumeral
  cases fraction? with
  | none => rw [digits character (List.mem_append_left _ member), Bool.true_or]
  | some fraction =>
    rcases List.mem_append.mp member with inside | behind
    · rw [digits character (List.mem_append_left _ inside), Bool.true_or]
    · rcases List.mem_cons.mp behind with rfl | inside
      · decide
      · rw [digits character (List.mem_append_right whole inside), Bool.true_or]

theorem text_ne_nil (numeral : Numeral) : numeral.text ≠ [] := by
  obtain ⟨whole, fraction?, digits, filled⟩ := numeral
  cases fraction? with
  | none => simpa [text] using filled
  | some fraction => simp [text]

theorem scan?_text_append (numeral : Numeral) {rest : List Char} (ends : EndsNumeral rest) :
    scan? (numeral.text ++ rest) = some (numeral.value, rest) := by
  rw [← numeral.ofDigits_eq_value]
  obtain ⟨whole, fraction?, digits, filled⟩ := numeral
  cases fraction? with
  | none =>
    simp only [Option.getD_none, List.append_nil] at digits filled
    exact scan?_digits_append digits filled ends
  | some fraction =>
    simp only [text, List.append_assoc, List.cons_append]
    exact scan?_pointed_append digits filled ends

theorem parse?_text (numeral : Numeral) : parse? numeral.text = some numeral.value := by
  rw [← numeral.ofDigits_eq_value]
  obtain ⟨whole, fraction?, digits, filled⟩ := numeral
  cases fraction? with
  | none =>
    simp only [Option.getD_none, List.append_nil] at digits filled
    exact parse?_digits digits filled
  | some fraction => exact parse?_pointed digits filled

/-- The reader of whole texts reads nothing but numerals. -/
theorem exists_of_parse? {text : List Char} {value : Decimal} (read : parse? text = some value) :
    ∃ numeral : Numeral, numeral.text = text ∧ numeral.value = value := by
  simp only [parse?, Option.ite_none_right_eq_some, Bool.and_eq_true, ← List.all_append,
    Bool.not_eq_true', List.isEmpty_eq_false_iff, Option.some.injEq] at read
  obtain ⟨⟨digits, filled⟩, rfl⟩ := read
  rw [List.all_eq_true] at digits
  by_cases pointed : '.' ∈ text
  · obtain ⟨whole, fraction, rfl, absent⟩ := List.eq_append_cons_of_mem pointed
    obtain ⟨taken, dropped⟩ := cut_separator absent fraction
    simp only [taken, dropped, List.drop_succ_cons, List.drop_zero] at digits filled ⊢
    exact ⟨⟨whole, some fraction, digits, filled⟩, rfl, (ofDigits_eq_value _).symm⟩
  · obtain ⟨taken, dropped⟩ := cut_of_not_mem pointed
    simp only [taken, dropped, List.drop_nil] at digits filled ⊢
    exact ⟨⟨text, none, digits, filled⟩, rfl, (ofDigits_eq_value _).symm⟩

private theorem slash_not_mem_text (numeral : Numeral) : '/' ∉ numeral.text :=
  fun member => absurd (numeral.continuesNumeral_of_mem_text member) (by decide)

/-- As a literal a numeral is no fraction. -/
theorem valueOf_text (numeral : Numeral) :
    Literal.valueOf (String.ofList numeral.text) = .ok numeral.value.toFloat := by
  obtain ⟨taken, dropped⟩ := cut_of_not_mem numeral.slash_not_mem_text
  have read : Literal.ofChars? numeral.text = some (.decimal numeral.value) := by
    simp only [Literal.ofChars?, taken, dropped, numeral.parse?_text, Option.map_some]
  simp only [Literal.valueOf, String.toList_ofList, read, Literal.toFloat]

/-- A literal without a slash is a numeral. -/
theorem exists_of_valueOf {text : String} {value : Float} (unslashed : '/' ∉ text.toList)
    (read : Literal.valueOf text = .ok value) :
    ∃ numeral : Numeral, String.ofList numeral.text = text ∧ numeral.value.toFloat = value := by
  obtain ⟨taken, dropped⟩ := cut_of_not_mem unslashed
  simp only [Literal.valueOf, Literal.ofChars?, taken, dropped] at read
  cases parsed : parse? text.toList with
  | none =>
    rw [parsed] at read
    cases read
  | some decimal =>
    rw [parsed] at read
    cases read
    obtain ⟨numeral, spelled, rfl⟩ := exists_of_parse? parsed
    exact ⟨numeral, by rw [spelled, String.ofList_toList], rfl⟩

/-- Two numerals with a slash between them are their quotient. -/
theorem valueOf_text_slash_text (numerator denominator : Numeral) :
    Literal.valueOf (String.ofList (numerator.text ++ '/' :: denominator.text)) =
      .ok (numerator.value.toFloat / denominator.value.toFloat) := by
  obtain ⟨taken, dropped⟩ := cut_separator numerator.slash_not_mem_text denominator.text
  have read : Literal.ofChars? (numerator.text ++ '/' :: denominator.text) =
      some (.fraction numerator.value denominator.value) := by
    simp only [Literal.ofChars?, taken, dropped, numerator.parse?_text, denominator.parse?_text]
    rfl
  simp only [Literal.valueOf, String.toList_ofList, read, Literal.toFloat]

/-! ## Natural numbers -/

/-- The digits of a natural number. -/
def ofNat (integer : Nat) : Numeral where
  whole := Nat.toDigits 10 integer
  fraction? := none
  digits := by
    intro character member
    rw [Option.getD_none, List.append_nil] at member
    exact Nat.isDigit_of_mem_toDigits (by decide) (by decide) member
  filled := by
    rw [Option.getD_none, List.append_nil]
    exact Nat.toDigits_ne_nil

theorem value_ofNat (integer : Nat) : (ofNat integer).value = ⟨integer, 0⟩ := by
  have read : Nat.ofDigitChars 10 (Nat.toDigits 10 integer) 0 = integer :=
    Nat.ofDigitChars_toDigits (by decide) (by decide)
  rw [← ofDigits_eq_value]
  simp only [ofNat, ofDigits, Option.getD_none, List.append_nil, List.length_nil, read]

end Numeral

end LineCalc.Decimal
