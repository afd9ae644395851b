import LineCalc.Decimal.Reader
import LineCalc.Text.Blank

/-!
# The percentage question

A line may ask `what percent of 25 is 5` instead of holding an expression. The three opening words
stand one space apart; from there on any number of blanks, but at least one, stands between a word
and a number. Letters of either case will do, and text around the question is ignored.
-/

set_option autoImplicit false

namespace LineCalc

/-- The question what percentage `part` is of `whole`. -/
structure Phrase where
  whole : Decimal
  part : Decimal
  deriving DecidableEq, Repr

namespace Phrase

/-- The words that open the question. -/
def opening : List Char :=
  "what percent of".toList

/-- The word between the two numbers. -/
def verb : List Char :=
  "is".toList

/-- Reads the question at the start of a text in lower case. Both numbers are read as far as they
go. -/
def atStart? (text : List Char) : Option Phrase := do
  let afterOpening ← opening.isPrefixOf? text
  let (whole, afterWhole) ← Decimal.scan? (← Text.afterBlanks? afterOpening)
  let afterVerb ← verb.isPrefixOf? (← Text.afterBlanks? afterWhole)
  let (part, _) ← Decimal.scan? (← Text.afterBlanks? afterVerb)
  return { whole, part }

/-- Reads the leftmost question of a text in lower case. -/
def within? : List Char → Option Phrase
  | [] => none
  | character :: rest => atStart? (character :: rest) <|> within? rest

/-- Reads the leftmost question of a line, whatever the case of its letters. -/
def ofLine? (line : String) : Option Phrase :=
  within? (line.toList.map Char.toLower)

/-- The percentage that is asked for. -/
def percentage (phrase : Phrase) : Float :=
  phrase.part.toFloat / phrase.whole.toFloat * 100

end Phrase

end LineCalc
