/-!
# Lines of text

How a stream of bytes falls into lines, and how lines are written.
-/

set_option autoImplicit false

namespace LineCalc.Text

def newline : UInt8 := 10

/-- The byte that may stand before the end of a line and then belongs to the ending. -/
def carriageReturn : UInt8 := 13

/-- A line that has been ended, without a carriage return at its end. -/
def dropCarriageReturn (line : List UInt8) : List UInt8 :=
  if line.getLast? = some carriageReturn then line.dropLast else line

/-- The lines of a stream without their endings. The last line needs no ending, and an ending at the
end of the stream starts no further line. -/
def splitLines : List UInt8 → List (List UInt8)
  | [] => []
  | first :: others =>
    let bytes := first :: others
    let line := bytes.takeWhile (· ≠ newline)
    if newline ∈ bytes then
      dropCarriageReturn line :: splitLines (bytes.drop (line.length + 1))
    else
      [bytes]
termination_by bytes => bytes.length
decreasing_by
  simp only [List.drop_succ_cons, List.length_drop, List.length_cons]
  omega

/-- The text of a line in UTF-8, if its bytes are well formed. -/
def decode? (line : List UInt8) : Option String :=
  String.fromUTF8? ⟨line.toArray⟩

def joinLines (lines : List String) : String :=
  String.join (lines.map (· ++ "\n"))

end LineCalc.Text
