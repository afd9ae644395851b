import LineCalc.BinaryFraction
import LineCalc.Decimal.Printer

/-!
# Shortest decimals

Among the decimals that read back as a given binary64 value, `Decimal.shortest` picks one with the
fewest digits, and of those the nearest. A value that ends at a given decimal place has two
candidates, the multiples of that place's unit on its two sides; the coarsest place with a candidate
that reads back wins. `decimalText` prints that decimal with its sign.
-/

set_option autoImplicit false

namespace LineCalc

namespace Decimal

/-- A binary fraction is a decimal with as many places, because `1 / 2 = 5 / 10`. -/
def ofBinaryFraction (value : BinaryFraction) : Decimal where
  mantissa := value.mantissa * Nat.pow 5 value.places
  places := value.places

/-- The decimal that counts units of the place `above` places left of the last of `places` places. -/
def ofUnits (count above places : Nat) : Decimal :=
  if above ≤ places then
    { mantissa := count, places := places - above }
  else
    { mantissa := count * Nat.pow 10 (above - places), places := 0 }

/-- Tries the places from `above` places left of the last place of `exact` down to that last place,
where `exact` itself is the answer. When both neighbours of `exact` read back as `value` the nearer
one is taken, and the larger one when they are equally near. -/
def shortestFrom (value : Float) (exact : Decimal) : Nat → Decimal
  | 0 => exact
  | above + 1 =>
    let unit := Nat.pow 10 (above + 1)
    let count := exact.mantissa / unit
    let below := ofUnits count (above + 1) exact.places
    let beyond := ofUnits (count + 1) (above + 1) exact.places
    if below.toFloat = value then
      if beyond.toFloat = value ∧ unit ≤ 2 * (exact.mantissa % unit) then beyond else below
    else if beyond.toFloat = value then
      beyond
    else
      shortestFrom value exact above

/-- The shortest decimal that reads back as the absolute value of a finite binary64 value. -/
def shortest (value : Float) : Decimal :=
  let exact := ofBinaryFraction (BinaryFraction.ofFloat value)
  if exact.mantissa = 0 then
    { mantissa := 0, places := 0 }
  else
    shortestFrom value.abs exact (Nat.toDigits 10 exact.mantissa).length

end Decimal

/-- The sign bit, which negative zero carries too. -/
def hasSignBit (value : Float) : Bool :=
  Nat.pow 2 63 ≤ value.toBits.toNat

/-- The decimal text of a binary64 value: the shortest digits that read back, never an exponent, and
no point in the text of an integer. -/
def decimalText (value : Float) : String :=
  if value.isNaN then
    "NaN"
  else
    let digits := if value.isFinite then (Decimal.shortest value).digits else ['i', 'n', 'f']
    String.ofList (if hasSignBit value then '-' :: digits else digits)

end LineCalc
