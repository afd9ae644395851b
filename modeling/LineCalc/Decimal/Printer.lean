import LineCalc.Decimal.Basic

/-!
# Printing decimals

A decimal is printed in positional notation with all of its places: at least one digit stands
before the point, and a decimal without places has no point.
-/

set_option autoImplicit false

namespace LineCalc.Decimal

/-- The digits of a decimal, with a point before its places if it has any. -/
def digits (value : Decimal) : List Char :=
  let unit := Nat.pow 10 value.places
  let whole := Nat.toDigits 10 (value.mantissa / unit)
  if value.places = 0 then
    whole
  else
    whole ++ '.' :: (Nat.toDigits 10 (value.mantissa % unit)).leftpad value.places '0'

end LineCalc.Decimal
