import LineCalc.Evaluation

/-!
# Sessions

A session answers lines one at a time and counts them. Its settings never change, and no line has an
effect on the answers to later ones.
-/

set_option autoImplicit false

namespace LineCalc

/-- What a session does with a line: it ends, or shows the lines of a result, or shows an error. -/
inductive Action where
  | quit
  | result (lines : List String)
  | error (line : String)
  deriving DecidableEq, Repr

def Action.lines : Action → List String
  | quit => []
  | result lines => lines
  | error line => [line]

/-- The settings of a session and the numbers of lines evaluated and refused so far. The numbers are
unbounded. Machine words would wrap around after `2 ^ 64` lines, which no session takes. -/
structure Session where
  settings : Settings := {}
  showTrace : Bool := false
  evaluations : Nat := 0
  errors : Nat := 0
  deriving DecidableEq, Repr

namespace Session

def quitWord : List Char :=
  "exit".toList

/-- A line asks to quit when the word, in any case, is all it holds besides blanks around it. -/
def asksToQuit (line : String) : Bool :=
  Text.sameLetters (Text.trim line.toList) quitWord

/-- The lines that show a result: the answer, then the steps if they are wanted and have a text. -/
def resultLines (session : Session) (evaluation : Evaluation) : List String :=
  let tokens := Token.listText evaluation.trace.tokens
  let rpn := Token.listText evaluation.trace.rpn
  let steps :=
    if session.showTrace && !rpn.isEmpty then ["  jetons: " ++ tokens, "  rpn: " ++ rpn] else []
  evaluation.answer.line :: steps

/-- Answers a line and counts it. A request to quit is not counted. -/
def step (session : Session) (line : String) : Action × Session :=
  if asksToQuit line then
    (.quit, session)
  else
    let counted := { session with evaluations := session.evaluations + 1 }
    match evaluate session.settings line with
    | .ok evaluation => (.result (session.resultLines evaluation), counted)
    | .error cause =>
      (.error ("Error: " ++ cause.message), { counted with errors := counted.errors + 1 })

/-- Answers lines one after the other, also after a request to quit. Each action comes with the session
after it. -/
def run (session : Session) : List String → List (Action × Session)
  | [] => []
  | line :: lines =>
    let (action, next) := session.step line
    (action, next) :: next.run lines

end Session

end LineCalc
