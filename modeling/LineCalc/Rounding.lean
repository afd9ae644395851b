import LineCalc.BinaryFraction

/-!
# Rounding to decimal places

The displayed value of a result is rounded to a number of decimal places by scaling it to an
integer and back.
-/

set_option autoImplicit false

namespace LineCalc

/-- The binary64 value nearest to `10 ^ places`, exact up to twenty-two places. Past them a power that
is multiplied out can differ from it in the last digits, and one whose exponent is a machine word wraps
around in the end. No answer shows either: the options take at most ten places. -/
def decimalScale (places : Nat) : Float :=
  Float.ofScientific 1 false places

/-- Rounds to `places` decimal places, a half going away from zero, and never to negative zero. A
value whose scaled form is not finite stays what it is: under a finite scale it is infinite, not a
number, or too large to have decimal places. -/
def roundTo (places : Nat) (value : Float) : Float :=
  let scaled := value * decimalScale places
  if scaled.isFinite then
    let rounded := nearestInteger scaled / decimalScale places
    if rounded == 0 then 0 else rounded
  else
    value

end LineCalc
