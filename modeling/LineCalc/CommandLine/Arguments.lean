import LineCalc.Evaluation

/-!
# Command-line arguments

The arguments are read from left to right, and the first one that settles the matter does so: a
mistake, or a wish for help or for the version. `--` ends the options, a lone `-` is an ordinary
argument, and at most one ordinary argument, the expression, may be given. Short flags can share one
dash.
-/

set_option autoImplicit false

namespace LineCalc.CommandLine

structure Request where
  settings : Settings := {}
  showTrace : Bool := false
  expression : Option String := none
  deriving DecidableEq, Repr

/-- Why reading stops before the last argument counts. -/
inductive Stop where
  | help
  | version
  | usageError
  deriving DecidableEq, Repr

inductive NumberOption where
  | decimals
  | maxDenominator
  deriving DecidableEq, Repr

namespace NumberOption

def ofName? (name : List Char) : Option NumberOption :=
  if name = "decimals".toList then some decimals
  else if name = "max-denominator".toList then some maxDenominator
  else none

def least : NumberOption → Int
  | decimals => 0
  | maxDenominator => 1

def greatest : NumberOption → Int
  | decimals => 10
  | maxDenominator => 1000000

end NumberOption

inductive Flag where
  | rpn
  | verbose
  | help
  | version
  deriving DecidableEq, Repr

namespace Flag

def ofName? (name : List Char) : Option Flag :=
  if name = "rpn".toList then some rpn
  else if name = "verbose".toList then some verbose
  else if name = "help".toList then some help
  else if name = "version".toList then some version
  else none

def ofLetter? : Char → Option Flag
  | 'v' => some verbose
  | 'h' => some help
  | 'V' => some version
  | _ => none

end Flag

def readDigits? (text : List Char) : Option Nat :=
  if text.all Char.isDigit && !text.isEmpty then some (Nat.ofDigitChars 10 text 0) else none

def readInteger? : List Char → Option Int
  | '-' :: digits => (readDigits? digits).map fun magnitude => -(magnitude : Int)
  | '+' :: digits => (readDigits? digits).map fun magnitude => (magnitude : Int)
  | digits => (readDigits? digits).map fun magnitude => (magnitude : Int)

/-- Reads the value of an option, which must lie in its range. -/
def NumberOption.readValue? (option : NumberOption) (text : List Char) : Option Int := do
  let value ← readInteger? text
  if option.least ≤ value ∧ value ≤ option.greatest then some value else none

inductive Expected where
  | anything
  | valueOf (option : NumberOption)
  | ordinary
  deriving DecidableEq, Repr

structure Reading where
  decimals : Option Int := none
  maxDenominator : Option Int := none
  showTrace : Bool := false
  expression : Option String := none
  expected : Expected := .anything
  deriving DecidableEq, Repr

namespace Reading

/-- Records the expression, which may be given once. -/
def takeExpression (reading : Reading) (expression : String) : Except Stop Reading :=
  match reading.expression with
  | none => .ok { reading with expression := some expression }
  | some _ => .error .usageError

/-- Records the value of an option, which may be given once. -/
def takeValue (reading : Reading) (option : NumberOption) (text : List Char) :
    Except Stop Reading :=
  let next := { reading with expected := .anything }
  match option, reading.decimals, reading.maxDenominator, option.readValue? text with
  | .decimals, none, _, some value => .ok { next with decimals := some value }
  | .maxDenominator, _, none, some value => .ok { next with maxDenominator := some value }
  | _, _, _, _ => .error .usageError

/-- Records a flag. Only `verbose` may be repeated, and it changes no answer. -/
def takeFlag (reading : Reading) : Flag → Except Stop Reading
  | .rpn => if reading.showTrace then .error .usageError else .ok { reading with showTrace := true }
  | .verbose => .ok reading
  | .help => .error .help
  | .version => .error .version

def takeLetter (reading : Reading) (letter : Char) : Except Stop Reading :=
  match Flag.ofLetter? letter with
  | some flag => reading.takeFlag flag
  | none => .error .usageError

/-- Records a long option, given without its two dashes. Its value follows an equals sign or is the
next argument; a flag takes no value. -/
def takeLong (reading : Reading) (text : List Char) : Except Stop Reading :=
  let name := text.takeWhile (· ≠ '=')
  match NumberOption.ofName? name, Flag.ofName? name, text.dropWhile (· ≠ '=') with
  | some option, _, [] => .ok { reading with expected := .valueOf option }
  | some option, _, _ :: value => reading.takeValue option value
  | none, some flag, [] => reading.takeFlag flag
  | none, _, _ => .error .usageError

/-- Takes in one argument. A value in an argument of its own must not look like an option. -/
def step (reading : Reading) (argument : String) : Except Stop Reading :=
  match reading.expected, argument.toList with
  | .ordinary, _ => reading.takeExpression argument
  | .valueOf _, '-' :: _ :: _ => .error .usageError
  | .valueOf option, text => reading.takeValue option text
  | .anything, ['-', '-'] => .ok { reading with expected := .ordinary }
  | .anything, '-' :: '-' :: long => reading.takeLong long
  | .anything, '-' :: letter :: letters => (letter :: letters).foldlM takeLetter reading
  | .anything, _ => reading.takeExpression argument

/-- The request once all arguments are read, with the usual settings where none were given. -/
def finish (reading : Reading) : Except Stop Request :=
  match reading.expected with
  | .valueOf _ => .error .usageError
  | _ =>
    let usual : Settings := {}
    .ok {
      settings := {
        decimals := (reading.decimals.map Int.toNat).getD usual.decimals
        maxDenominator := reading.maxDenominator.getD usual.maxDenominator }
      showTrace := reading.showTrace
      expression := reading.expression }

end Reading

def read (arguments : List String) : Except Stop Request :=
  arguments.foldlM Reading.step {} >>= Reading.finish

end LineCalc.CommandLine
