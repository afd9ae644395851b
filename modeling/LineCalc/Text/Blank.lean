/-!
# Blank characters

The characters that separate words, and the two ways of skipping them: `trim` drops them at both
ends of a text, `afterBlanks?` insists on at least one at its start.
-/

set_option autoImplicit false

namespace LineCalc.Text

/-- The code points with the Unicode property `White_Space`, as closed ranges in increasing order. -/
def blankRanges : List (Nat × Nat) :=
  [(0x0009, 0x000D), (0x0020, 0x0020), (0x0085, 0x0085), (0x00A0, 0x00A0), (0x1680, 0x1680),
   (0x2000, 0x200A), (0x2028, 0x2029), (0x202F, 0x202F), (0x205F, 0x205F), (0x3000, 0x3000)]

def isBlank (character : Char) : Bool :=
  blankRanges.any fun range => range.1 ≤ character.toNat && character.toNat ≤ range.2

def trim (text : List Char) : List Char :=
  ((text.dropWhile isBlank).reverse.dropWhile isBlank).reverse

/-- What follows the blanks at the start of a text, of which there must be at least one. -/
def afterBlanks? : List Char → Option (List Char)
  | [] => none
  | character :: rest => if isBlank character then some (rest.dropWhile isBlank) else none

/-- Two texts agree up to the case of the ASCII letters. -/
def sameLetters (left right : List Char) : Bool :=
  left.map Char.toLower == right.map Char.toLower

end LineCalc.Text
