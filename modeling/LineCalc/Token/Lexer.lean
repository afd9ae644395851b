import LineCalc.Token.Basic

/-!
# Reading tokens

A number is a digit with the longest run of digits, points and slashes after it, so that `3/4` is one
number and `3 / 4` is a division. Every other token is one character, and a character that is no
token is skipped.
-/

set_option autoImplicit false

namespace LineCalc.Token

/-- The characters that continue a number: digits, points and slashes. -/
def continuesNumber (character : Char) : Bool :=
  character.isDigit || character == '.' || character == '/'

def ofSymbol? : Char → Option Token
  | '(' => some .openParen
  | ')' => some .closeParen
  | character => (Operator.ofSymbol? character).map .operator

def ofChars : List Char → List Token
  | [] => []
  | character :: rest =>
    if character.isDigit then
      .number (String.ofList (character :: rest.takeWhile continuesNumber)) ::
        ofChars (rest.dropWhile continuesNumber)
    else
      match ofSymbol? character with
      | some token => token :: ofChars rest
      | none => ofChars rest
termination_by text => text.length
decreasing_by
  all_goals simp only [List.length_cons]
  · have shorter := (List.dropWhile_sublist continuesNumber (l := rest)).length_le
    omega
  all_goals omega

def ofLine (line : String) : List Token :=
  ofChars line.toList

end LineCalc.Token
