import LineCalc.CommandLine.Program

/-!
# The executable

Input and output of the program. Every decision is made by `LineCalc.CommandLine`.
-/

set_option autoImplicit false

namespace LineCalc.CommandLine

/-- Reads the bytes up to the end of the line or of the input, after those that are read already,
which are given the latest first. -/
partial def readLine (input : IO.FS.Stream) (already : List UInt8) : IO (List UInt8) := do
  match (← input.read 1).data.toList with
  | [] => return already.reverse
  | byte :: _ =>
    if byte = Text.newline then
      return (byte :: already).reverse
    else
      readLine input (byte :: already)

partial def talk (input output : IO.FS.Stream) (session : Session) : IO UInt8 := do
  match Text.splitLines (← readLine input []) with
  | [] => return 0
  | line :: _ =>
    match reply session (Text.decode? line) with
    | .stop exitCode => return exitCode
    | .say text next =>
      output.putStr text
      output.flush
      talk input output next

/-- Runs the program on the standard streams and gives its exit code. -/
def serve (arguments : List String) : IO UInt8 := do
  let output ← IO.getStdout
  match start arguments with
  | .finished outcome =>
    output.putStr outcome.output
    output.flush
    return outcome.exitCode
  | .conversation session => talk (← IO.getStdin) output session

end LineCalc.CommandLine

def main (arguments : List String) : IO UInt32 := do
  return (← LineCalc.CommandLine.serve arguments).toUInt32
