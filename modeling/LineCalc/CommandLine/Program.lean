import LineCalc.CommandLine.Arguments
import LineCalc.CommandLine.Messages
import LineCalc.Session
import LineCalc.Text.Lines

/-!
# The program

The program evaluates the expression among its arguments, or answers the lines of its input one by
one until a line asks to quit, the input ends, or a line is not well-formed UTF-8.
-/

set_option autoImplicit false

namespace LineCalc.CommandLine

/-- What a run of the program leaves behind: its exit code and what it printed. -/
structure Outcome where
  exitCode : UInt8
  output : String
  deriving DecidableEq, Repr

def usageErrorCode : UInt8 := 2

def Request.session (request : Request) : Session where
  settings := request.settings
  showTrace := request.showTrace

inductive Reply where
  | stop (exitCode : UInt8)
  | say (output : String) (next : Session)

/-- Answers a line of the input; a line without a text cannot be decoded. -/
def reply (session : Session) : Option String → Reply
  | none => .stop 1
  | some line =>
    match session.step line with
    | (.quit, _) => .stop 0
    | (action, next) => .say (Text.joinLines action.lines) next

/-- Answers the lines of the input until one of them ends the conversation. -/
def converse (session : Session) : List (Option String) → Outcome
  | [] => { exitCode := 0, output := "" }
  | line :: lines =>
    match reply session line with
    | .stop exitCode => { exitCode, output := "" }
    | .say output next =>
      let later := converse next lines
      { later with output := output ++ later.output }

def evaluateOnce (session : Session) (line : String) : Outcome :=
  let action := (session.step line).1
  let exitCode :=
    match action with
    | .error _ => 1
    | _ => 0
  { exitCode, output := Text.joinLines action.lines }

def Stop.outcome : Stop → Outcome
  | .help => { exitCode := 0, output := Text.joinLines helpLines }
  | .version => { exitCode := 0, output := versionText }
  | .usageError => { exitCode := usageErrorCode, output := "" }

/-- What the arguments lead to: an outcome without any input, or a conversation. -/
inductive Start where
  | finished (outcome : Outcome)
  | conversation (session : Session)

/-- Acts on the arguments. An expression among them is evaluated, and then the input is not read. -/
def start (arguments : List String) : Start :=
  match read arguments with
  | .error stop => .finished stop.outcome
  | .ok request =>
    match request.expression with
    | some line => .finished (evaluateOnce request.session line)
    | none => .conversation request.session

def run (arguments : List String) (input : ByteArray) : Outcome :=
  match start arguments with
  | .finished outcome => outcome
  | .conversation session =>
    converse session ((Text.splitLines input.data.toList).map Text.decode?)

end LineCalc.CommandLine
