/-!
# Decimals

A decimal is a natural number with a point some places from its right end. Digits are read into a
decimal exactly; only `Decimal.toFloat` rounds, once, to the nearest binary64 value.
-/

set_option autoImplicit false

namespace LineCalc

/-- The number `mantissa / 10 ^ places`. -/
structure Decimal where
  mantissa : Nat
  places : Nat
  deriving DecidableEq, Repr

namespace Decimal

def ofDigits (whole fraction : List Char) : Decimal where
  mantissa := Nat.ofDigitChars 10 (whole ++ fraction) 0
  places := fraction.length

/-- The binary64 value nearest to a decimal, ties to even, infinite past the largest finite value. -/
def toFloat (value : Decimal) : Float :=
  Float.ofScientific value.mantissa true value.places

end Decimal

end LineCalc
