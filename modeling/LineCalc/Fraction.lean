import LineCalc.BinaryFraction

/-!
# Fractions

A finite value is shown as the fraction that comes nearest to it among the denominators up to a
limit. The denominators are tried in increasing order, each with its best numerator, and a later one
replaces an earlier one only if its error is strictly smaller. All errors are binary64 errors.
-/

set_option autoImplicit false

namespace LineCalc

/-- A signed numerator over a denominator, not reduced. -/
structure Fraction where
  numerator : Int
  denominator : Nat
  deriving DecidableEq, Repr

namespace Fraction

/-- The numerator and the denominator with a slash between them, also over the denominator one. -/
def text (fraction : Fraction) : String :=
  let magnitude := Nat.toDigits 10 fraction.numerator.natAbs
  let numerator := if fraction.numerator < 0 then '-' :: magnitude else magnitude
  String.ofList (numerator ++ '/' :: Nat.toDigits 10 fraction.denominator)

/-- A fraction under trial: its numerator is an integral binary64 value, and `error` is its binary64
distance from the value that it approximates. -/
structure Candidate where
  numerator : Float
  denominator : Nat
  error : Float
  deriving DecidableEq, Repr

def errorOf (value numerator denominator : Float) : Float :=
  (value - numerator / denominator).abs

def Candidate.over (value : Float) (denominator : Nat) : Candidate :=
  let divisor := Float.ofNat denominator
  let numerator := nearestInteger (value * divisor)
  { numerator, denominator, error := errorOf value numerator divisor }

/-- The candidate `1 / 1`, which stands until a denominator does better. -/
def Candidate.one (value : Float) : Candidate where
  numerator := 1
  denominator := 1
  error := (value - 1).abs

/-- Keeps a candidate unless the next one is strictly nearer. -/
def Candidate.improve (best next : Candidate) : Candidate :=
  if next.error < best.error then next else best

/-- The candidate that remains after the denominators from one to `limit`. -/
def scan (value : Float) (limit : Nat) : Candidate :=
  Nat.fold limit (fun index _ best => best.improve (.over value (index + 1))) (.one value)

/-- The fraction shown for a finite value, with the value's sign on its numerator. A limit below one
leaves `1 / 1`. -/
def approximate? (value : Float) (maxDenominator : Int) : Option Fraction :=
  if value.isFinite then do
    let best := scan value.abs maxDenominator.toNat
    let magnitude ← wholeMagnitude? best.numerator
    return {
      numerator := if value < 0 then -(magnitude : Int) else magnitude
      denominator := best.denominator }
  else
    none

end Fraction

end LineCalc
