import Z80Workbench.Assembly.Run
import Z80Workbench.Cli.Invocation
import Z80Workbench.Walk.Report

/-!
# Z80Workbench.Cli.Simulator

The command `msxrun`: it runs a routine of a source file, from a label or line number or from
where execution starts, and prints the outcome. Errors in the source do not keep it from running.
-/

namespace Z80Workbench.Cli.Simulator

open Text

/-- The name of the command. -/
def command : String := "msxrun"

/-- The work of the command, as failures name it. -/
def stage : String := "Simulation"

/-- The options of the command. -/
def options : List OptionSpec :=
  [{ name := "from", letter := some 'f', hasValue := true },
   { name := "max-steps", letter := some 'n', hasValue := true },
   { name := "lookahead" }]

/-- Why there is no place to start at. -/
inductive StartError where
  | noNumber (text : String)
  | unknownLabel (name : String)
  deriving Repr, DecidableEq

/-- What is wrong with a start, in words. -/
def StartError.message : StartError → String
  | noNumber text => "invalid literal for int() with base 10: " ++ quotedStart numberTextLimit text
  | unknownLabel name => s!"unknown label '{name}'"

/-- Where a run starts. Digit signs make a line number, and anything else is the name of a label
in any letter case. -/
def start (a : Analysis) : Option String → Except StartError Start
  | none => .ok (.line a.entryLine)
  | some text =>
    if !text.isEmpty && text.toList.all isDigitSign then
      match decimalInteger? text with
      | some number => .ok (.line number.toNat)
      | none => .error (.noNumber text)
    else if a.labels.contains (upperString text) then .ok (.label text)
    else .error (.unknownLabel text)

/-- Where a run starts, in words. -/
def startText : Start → String
  | .label name => name
  | .line number => toString number

/-- The limit on steps that is asked for: `none` if there is none. -/
def readLimit? (arguments : Arguments) : Option (Option Nat) :=
  match arguments.value? "max-steps" with
  | none => some none
  | some text =>
    match decimalInteger? text with
    | some number => if 1 ≤ number then some (some number.toNat) else none
    | none => none

/-- Works on a source. -/
def work (around : Surroundings) (arguments : Arguments) (limit : Option Nat)
    (file source : String) : Transcript :=
  let settings := around.settings
  match Analysis.run settings source file with
  | .error fault => ({} : Transcript).fail stage (.ofFault fault)
  | .ok a =>
    match start a (arguments.value? "from") with
    | .error e => ({} : Transcript).fail stage (.argument e.message)
    | .ok origin =>
      let t :=
        ({} : Transcript).note arguments.verbose s!"Running {file} from {startText origin}..."
      let program := Program.ofAnalysis settings a
      let machine := Machine.initial settings
      let outcome :=
        if arguments.has "lookahead" then program.lookAhead origin machine limit false
        else program.runSubroutine origin machine limit {}
      match outcome with
      | .ok o => t.print o.report
      | .error e => t.fail stage (.ofRegister e)

/-- Runs the command; `none` if the command line is no use of it. -/
def run? (around : Surroundings) (arguments : List String) : Option Transcript :=
  match Invocation.read? options around arguments with
  | none => none
  | some .version => some (.ofVersion command)
  | some (.work file source given) =>
    (readLimit? given).map fun limit => work around given limit file source

end Z80Workbench.Cli.Simulator
