import Z80Workbench.Cli.Arguments
import Z80Workbench.Cli.Transcript
import Z80Workbench.Settings
import Z80Workbench.Text.Lines
import Z80Workbench.Text.Split
import Z80Workbench.Text.Utf8

/-!
# Z80Workbench.Cli.Invocation

What the commands have in common: they read one source file, and they can state their version.
-/

namespace Z80Workbench.Cli

open Text

/-- What a path leads to. -/
inductive PathState where
  | file (bytes : List Nat)
  | folder
  /-- Nothing is there, but a file could be. -/
  | absent
  /-- A folder on the way does not exist. -/
  | unreachable
  /-- Something on the way is no folder. -/
  | blocked
  /-- The path, or a name in it, is too long. -/
  | tooLong
  deriving Repr, DecidableEq

/-- The world around a command: environment variables and paths. -/
structure Surroundings where
  setting : String → Option String
  look : String → PathState

/-- The settings that the environment asks for. -/
def Surroundings.settings (around : Surroundings) : Settings := .ofEnvironment around.setting

/-- What an absolute path starts with: one slash, or exactly two, which are kept apart. -/
def pathRoot : List Char → String
  | '/' :: '/' :: '/' :: _ => "/"
  | '/' :: '/' :: _ => "//"
  | '/' :: _ => "/"
  | _ => ""

/-- A path as it is shown: without empty steps and steps that stay where they are. -/
def tidyPath (path : String) : String :=
  let steps := (splitAt '/' path.toList).filter fun step => step ≠ [] ∧ step ≠ ['.']
  let tidy := pathRoot path.toList ++ "/".intercalate (steps.map String.ofList)
  if tidy.isEmpty then "." else tidy

/-- Bytes of a source file as text. -/
def sourceText (bytes : List Nat) : String :=
  String.ofList (unifyLineEnds (decodeUtf8 bytes))

/-- What a command line asks for: the version, or work on a source file. -/
inductive Invocation where
  | version
  | work (file source : String) (arguments : Arguments)

namespace Invocation

/-- The option that asks for the version. -/
def versionOption : OptionSpec := { name := "version" }

/-- The option that asks a command to say what it does. -/
def verboseOption : OptionSpec := { name := "verbose", letter := some 'v' }

/-- The options of a command, with those that all commands have. -/
def withCommon (specs : List OptionSpec) : List OptionSpec :=
  versionOption :: verboseOption :: specs

/-- Reads a command line; `none` if it is no use of the command. To state the version, no
source file is needed. -/
def read? (specs : List OptionSpec) (around : Surroundings) (arguments : List String) :
    Option Invocation :=
  match Arguments.parse? (withCommon specs) arguments with
  | none => none
  | some a =>
    if a.has versionOption.name then some .version
    else
      match a.others with
      | [path] =>
        match around.look path with
        | .file bytes => some (.work (tidyPath path) (sourceText bytes) a)
        | _ => none
      | _ => none

end Invocation

/-- Whether a command is to say what it does. -/
def Arguments.verbose (a : Arguments) : Bool := a.has Invocation.verboseOption.name

/-- The version of the commands. -/
def versionNumber : String := "1.0.0"

/-- A command that states its version. -/
def Transcript.ofVersion (command : String) : Transcript :=
  ({} : Transcript).print (command ++ ", version " ++ versionNumber)

end Z80Workbench.Cli
