/-!
# Binary fractions

Every finite binary64 value is an integer over a power of two. `BinaryFraction.ofFloat` gives its
absolute value in this form, so that rounding to an integer is integer arithmetic.
-/

set_option autoImplicit false

namespace LineCalc

/-- The number `mantissa / 2 ^ places`. -/
structure BinaryFraction where
  mantissa : Nat
  places : Nat
  deriving DecidableEq, Repr

namespace BinaryFraction

/-- The absolute value of a finite binary64 value, exactly. The exponent field counts from the
subnormal range, whose values have no implicit leading bit and share the exponent of field one. -/
def ofFloat (value : Float) : BinaryFraction :=
  let bits := value.toBits.toNat
  let field := bits / Nat.pow 2 52 % Nat.pow 2 11
  let fraction := bits % Nat.pow 2 52
  let significand := if field = 0 then fraction else fraction + Nat.pow 2 52
  let exponent := max field 1
  { mantissa := significand * Nat.pow 2 (exponent - 1075), places := 1075 - exponent }

/-- The nearest natural number, a half going up. -/
def nearestNat (value : BinaryFraction) : Nat :=
  (2 * value.mantissa + Nat.pow 2 value.places) / Nat.pow 2 (value.places + 1)

end BinaryFraction

/-- The integer nearest to a binary64 value, a half going away from zero. A value without binary
places is an integer already, or infinite or not a number, and stays what it is. Negative zero becomes
positive zero, where the rounding of the standard keeps the sign. No answer shows the difference:
`roundTo` gives positive zero for either, and the search for a fraction rounds absolute values only. -/
def nearestInteger (value : Float) : Float :=
  let magnitude := BinaryFraction.ofFloat value
  if magnitude.places = 0 then
    value
  else
    let nearest := Float.ofNat magnitude.nearestNat
    if value < 0 then -nearest else nearest

/-- The whole part of the absolute value of a binary64 value, exactly. Values that are infinite or not a
number have none. -/
def wholeMagnitude? (value : Float) : Option Nat :=
  if value.isFinite then
    let magnitude := BinaryFraction.ofFloat value
    some (magnitude.mantissa / Nat.pow 2 magnitude.places)
  else
    none

end LineCalc
