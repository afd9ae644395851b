import LineCalc.Proofs.Decimal.Text
import LineCalc.Proofs.Evaluation.Stages
import LineCalc.Proofs.Fraction.Reproduction

/-!
# The line of a result

A value on the grid of its decimal places has a decimal with no more places that reads back, so its shortest
decimal has no more either. The line of a result shows such a value, alone or behind its fraction.
-/

set_option autoImplicit false

namespace LineCalc

open Binary64
open Float.Model.UnpackedFloat (Sign)

namespace Decimal

/-! ## Clean numerals -/

/-- A numeral with a digit before the point, and behind a point with a few digits of which the last one is
not zero. -/
structure Numeral.Clean (places : ℕ) (numeral : Numeral) : Prop where
  leading : numeral.whole ≠ []
  pointed : ∀ fraction ∈ numeral.fraction?, fraction ≠ []
  few : ∀ fraction ∈ numeral.fraction?, fraction.length ≤ places
  trimmed : ∀ fraction ∈ numeral.fraction?, fraction.getLast? ≠ some '0'

private theorem Numeral.mantissa_of_getLast? {numeral : Numeral} {fraction : List Char}
    (pointed : numeral.fraction? = some fraction) (last : fraction.getLast? = some '0') :
    numeral.value.mantissa % 10 = 0 := by
  obtain ⟨before, rfl⟩ := List.getLast?_eq_some_iff.mp last
  rw [value, pointed, Option.getD_some, ← List.append_assoc, List.reverse_append, List.reverse_singleton,
    List.singleton_append, List.map_cons, Nat.ofDigits_cons, Nat.sub_self, Nat.zero_add]
  exact Nat.mul_mod_right 10 _

private theorem Numeral.mantissa_of_zeros {numeral : Numeral}
    (zeros : ∀ digit ∈ numeral.whole ++ numeral.fraction?.getD [], digit = '0') :
    numeral.value.mantissa = 0 := by
  have same := List.eq_replicate_iff.mpr ⟨rfl, zeros⟩
  rw [← ofDigits_eq_value, ofDigits, same, Nat.ofDigitChars_replicate_zero, Nat.mul_zero]

private theorem length_of_fraction? {decimal : Decimal} {fraction : List Char}
    (pointed : decimal.numeral.fraction? = some fraction) :
    fraction.length = decimal.places ∧ decimal.places ≠ 0 := by
  have length : (decimal.numeral.fraction?.getD []).length = decimal.places :=
    congrArg Decimal.places decimal.value_numeral
  rw [pointed, Option.getD_some] at length
  refine ⟨length, fun none => ?_⟩
  simp only [numeral, if_pos none] at pointed
  cases pointed

private theorem clean_numeral {decimal : Decimal} {places : ℕ} (few : decimal.places ≤ places)
    (trimmed : decimal.places ≠ 0 → decimal.mantissa % 10 ≠ 0) : decimal.numeral.Clean places where
  leading := decimal.whole_numeral_ne_nil
  pointed := by
    intro fraction pointed none
    obtain ⟨length, some⟩ := length_of_fraction? pointed
    rw [none, List.length_nil] at length
    exact some length.symm
  few := by
    intro fraction pointed
    rw [(length_of_fraction? pointed).1]
    exact few
  trimmed := by
    intro fraction pointed last
    have zero := Numeral.mantissa_of_getLast? pointed last
    rw [value_numeral] at zero
    exact trimmed (length_of_fraction? pointed).2 zero

end Decimal

/-! ## Clean values -/

/-- The text of a number as results show it. What is behind a minus is not zero. -/
inductive CleanText (places : ℕ) : List Char → Prop where
  | positive {numeral : Decimal.Numeral} (clean : numeral.Clean places) : CleanText places numeral.text
  | negative {numeral : Decimal.Numeral} (clean : numeral.Clean places)
      (some : ∃ digit ∈ numeral.whole ++ numeral.fraction?.getD [], digit ≠ '0') :
      CleanText places ('-' :: numeral.text)

/-- A value that results can show. -/
structure CleanValue (places : ℕ) (value : Float) : Prop where
  finite : value.isFinite = true
  text : CleanText places (decimalText value).toList

variable {value : Float} {sign : Sign} {magnitude : ℚ} {places : ℕ}

private theorem places_shortest_le (denotes : Denotes value sign magnitude)
    (grid : OnGrid places magnitude) :
    (Decimal.shortest value).places ≤ places := by
  have fewest := (Decimal.isShortest_shortest denotes).fewest
  rcases grid with ⟨integer, rounded⟩ | large
  · exact fewest ⟨integer, places⟩ ((Decimal.toFloat_eq_iff denotes.abs _).mpr rounded.symm)
  · obtain ⟨integer, rfl⟩ := exists_natCast_of_large denotes large
    have number : (⟨integer, 0⟩ : Decimal).number = integer := by
      rw [Decimal.number, pow_zero, div_one]
    exact le_trans (fewest ⟨integer, 0⟩ (Decimal.toFloat_of_number_eq denotes.abs number)) (Nat.zero_le _)

private theorem exists_digit_ne_zero (denotes : Denotes value sign magnitude) (some : magnitude ≠ 0) :
    ∃ digit ∈ (Decimal.shortest value).numeral.whole ++
      (Decimal.shortest value).numeral.fraction?.getD [], digit ≠ '0' := by
  by_contra none
  have zeros : ∀ digit ∈ (Decimal.shortest value).numeral.whole ++
      (Decimal.shortest value).numeral.fraction?.getD [], digit = '0' :=
    fun digit member => by_contra fun apart => none ⟨digit, member, apart⟩
  have mantissa := Decimal.Numeral.mantissa_of_zeros zeros
  rw [Decimal.value_numeral] at mantissa
  have vanishes : (Decimal.shortest value).number = 0 := by
    rw [Decimal.number, mantissa, Nat.cast_zero, zero_div]
  exact Decimal.toFloat_ne_of_number_eq_zero denotes.abs some vanishes
    (Decimal.isShortest_shortest denotes).reads

private theorem cleanValue_of_onGrid (denotes : Denotes value sign magnitude)
    (grid : OnGrid places magnitude)
    (signed : sign = .negative → magnitude ≠ 0) : CleanValue places value where
  finite := denotes.isFinite
  text := by
    have clean := Decimal.clean_numeral (places_shortest_le denotes grid)
      (Decimal.isShortest_shortest denotes).trimmed
    cases sign with
    | positive =>
      rw [decimalText_of_positive denotes, String.toList_ofList]
      exact .positive clean
    | negative =>
      rw [decimalText_of_negative denotes, String.toList_ofList]
      exact .negative clean (exists_digit_ne_zero denotes (signed rfl))

theorem cleanValue_roundTo (few : places ≤ 22) {raw : Float}
    (finite : (roundTo places raw).isFinite = true) : CleanValue places (roundTo places raw) := by
  rw [isFinite_roundTo few] at finite
  obtain ⟨sign, magnitude, denotes, grid, signed⟩ := exists_denotes_roundTo few finite
  exact cleanValue_of_onGrid denotes grid signed

private theorem head?_decimalText_of_lt_zero (finite : value.isFinite = true) (below : value < 0) :
    (decimalText value).toList.head? = some '-' := by
  obtain ⟨sign, magnitude, denotes⟩ := exists_denotes finite
  obtain ⟨rfl, _⟩ := denotes.lt_zero_iff.mp below
  rw [decimalText_of_negative denotes, String.toList_ofList, List.head?_cons]

/-! ## Clean lines -/

/-- The lines that show a result: a percentage, a value twice, or a fraction and the value. -/
inductive CleanLine (settings : Settings) : String → Prop where
  | percentage {value : Float} (clean : CleanValue settings.decimals value) :
      CleanLine settings ("= " ++ decimalText value ++ "%")
  | decimal {value : Float} (clean : CleanValue settings.decimals value) :
      CleanLine settings ("= " ++ decimalText value ++ " (≈ " ++ decimalText value ++ ")")
  | fraction {value : Float} {fraction : Fraction} {text : String}
      (clean : CleanValue settings.decimals value) (spelled : fraction.Spells text)
      (least : 1 ≤ fraction.denominator)
      (greatest : (fraction.denominator : Int) ≤ settings.maxDenominator)
      (signed : fraction.numerator < 0 → (decimalText value).toList.head? = some '-') :
      CleanLine settings ("= " ++ text ++ " (≈ " ++ decimalText value ++ ")")

theorem cleanLine_of_evaluates {settings : Settings} {line : String} {evaluation : Evaluation}
    (few : settings.decimals ≤ 22) (least : 1 ≤ settings.maxDenominator)
    (evaluates : Evaluates settings line evaluation) :
    CleanLine settings evaluation.answer.line := by
  cases evaluates with
  | percentage asked rounded finite =>
    subst rounded
    exact .percentage (cleanValue_roundTo few finite)
  | @number rpn raw value text unasked converted valued rounded finite told =>
    subst rounded
    have clean := cleanValue_roundTo few finite
    rw [valueText] at told
    split at told
    · split at told
      · rename_i fraction shown
        cases told
        have bounds := Fraction.bounded_of_approximate? shown least
        exact .fraction clean fraction.spells_text bounds.lower bounds.upper
          fun negative => head?_decimalText_of_lt_zero finite (bounds.signed negative)
      · cases told
    · cases told
      exact .decimal clean

end LineCalc
