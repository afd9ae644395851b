import LineCalc.Decimal.Basic

/-!
# Reading decimals

A decimal is written with ASCII digits and at most one point, and holds at least one digit: `12`,
`2.5`, `.5` and `5.` are decimals, a lone point is not. `Decimal.parse?` reads a whole text,
`Decimal.scan?` reads as much as it can at the start of a text and returns what is left.
-/

set_option autoImplicit false

namespace LineCalc.Decimal

/-- Reads a text that is a decimal from its first to its last character. -/
def parse? (text : List Char) : Option Decimal :=
  let whole := text.takeWhile (· ≠ '.')
  let fraction := (text.dropWhile (· ≠ '.')).drop 1
  if whole.all Char.isDigit && fraction.all Char.isDigit && !(whole ++ fraction).isEmpty then
    some (ofDigits whole fraction)
  else
    none

/-- Reads the longest run of digits with at most one point at the start of a text, and returns the
decimal with the rest of the text. A run without a digit is no decimal. -/
def scan? (text : List Char) : Option (Decimal × List Char) :=
  let whole := text.takeWhile Char.isDigit
  let afterWhole := text.dropWhile Char.isDigit
  let (fraction, rest) :=
    match afterWhole with
    | '.' :: afterPoint => (afterPoint.takeWhile Char.isDigit, afterPoint.dropWhile Char.isDigit)
    | _ => ([], afterWhole)
  if (whole ++ fraction).isEmpty then none else some (ofDigits whole fraction, rest)

end LineCalc.Decimal
