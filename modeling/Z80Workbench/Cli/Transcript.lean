import Z80Workbench.Diagnostic
import Z80Workbench.Fault
import Z80Workbench.Machine.Registers
import Z80Workbench.Text.Quoted
import Z80Workbench.Text.Terminal

/-!
# Z80Workbench.Cli.Transcript

What a command does as a value: the text it prints, the files it writes, and how it exits. The
steps of a command follow one another by `Transcript.andThen`; after a failure no step follows.
-/

namespace Z80Workbench.Cli

open Text

/-- How a command exits. -/
inductive Exit where
  | success | buildError | invalidArguments | internalError
  deriving Repr, DecidableEq

/-- The exit code. -/
def Exit.code : Exit → Nat
  | success => 0
  | buildError => 1
  | invalidArguments => 2
  | internalError => 3

/-- How much of a quoted text that is no number is shown. -/
def numberTextLimit : Nat := 200

/-- Why a command fails. -/
inductive Failure where
  /-- The source cannot be assembled. -/
  | source (diagnostic : Diagnostic)
  /-- The work on a source fails otherwise. -/
  | work (message : String)
  /-- An argument, or a file that it names, is of no use. -/
  | argument (message : String)
  /-- A name that nothing has comes up where it must not. -/
  | unknownName (name : String)
  /-- Anything else. -/
  | internal (message : String)

namespace Failure

/-- The exit after a failure. -/
def exit : Failure → Exit
  | source _ | work _ => .buildError
  | argument _ => .invalidArguments
  | unknownName _ | internal _ => .internalError

/-- A failure in words; `stage`, if there is one, is the name of the work that was done. -/
def text (stage : String) : Failure → String
  | source diagnostic => diagnostic.text
  | work message => (if stage.isEmpty then "Error: " else stage ++ " error: ") ++ message
  | argument message => "Error: " ++ message
  | unknownName name => "Internal error: " ++ quoted name
  | internal message => "Internal error: " ++ message

/-- The failure of a run that meets an unknown register. -/
def ofRegister (e : UnknownRegister) : Failure := .unknownName e.name

/-- The failure of an analysis that a fault ends. -/
def ofFault : Fault → Failure
  | .noWord | .noOperand => .internal "list index out of range"
  | .noCharacter => .internal "string index out of range"
  | .noNumber base text =>
    .argument s!"invalid literal for int() with base {base}: {quotedStart numberTextLimit text}"
  | .noRegister name => .unknownName name
  | .noByte _ => .argument "bytes must be in range(0, 256)"
  | .noCell address => .internal (toString address)

end Failure

/-- What a file is written with. -/
inductive FileContent where
  | text (value : String)
  | bytes (value : List Nat)

/-- What a command has done. -/
structure Transcript where
  output : String := ""
  errors : String := ""
  files : List (String × FileContent) := []
  exit : Exit := .success

namespace Transcript

/-- Prints a line, without control sequences. -/
def print (t : Transcript) (line : String) : Transcript :=
  { t with output := t.output ++ plainString line ++ "\n" }

/-- Prints a line on the channel for errors, without control sequences. -/
def complain (t : Transcript) (line : String) : Transcript :=
  { t with errors := t.errors ++ plainString line ++ "\n" }

/-- Prints a line if the command is to say what it does. -/
def note (t : Transcript) (verbose : Bool) (line : String) : Transcript :=
  if verbose then t.print line else t

/-- Writes a file. -/
def write (t : Transcript) (path : String) (content : FileContent) : Transcript :=
  { t with files := t.files ++ [(path, content)] }

/-- Says what is wrong, and ends. -/
def stop (t : Transcript) (exit : Exit) (line : String) : Transcript :=
  { t.complain line with exit }

/-- Ends with a failure. -/
def fail (t : Transcript) (stage : String) (failure : Failure) : Transcript :=
  t.stop failure.exit (failure.text stage)

/-- Goes on with a step unless the command has ended. -/
def andThen (t : Transcript) (step : Transcript → Transcript) : Transcript :=
  if t.exit = .success then step t else t

end Transcript

end Z80Workbench.Cli
