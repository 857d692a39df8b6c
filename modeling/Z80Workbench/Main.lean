import Z80Workbench.Cli.Assembler
import Z80Workbench.Cli.Simulator

/-!
# Z80Workbench.Main

The program. Its first argument names the command; the others are the command line of it.
-/

namespace Z80Workbench.Cli

/-- The path of the folder that holds what a tidy path leads to. -/
def folderOf (path : String) : String :=
  let front := path.toList.reverse.dropWhile (· ≠ '/')
  if front.isEmpty then "." else String.ofList front.reverse

/-- Looks where a path leads; `parent` is what its folder has been found to be. -/
def lookAt (parent : PathState) (path : String) : IO PathState := do
  try
    let content ← IO.FS.readBinFile path
    return .file (content.toList.map UInt8.toNat)
  catch
    | .inappropriateType _ code _ => return if code = 21 then .folder else .blocked
    | .invalidArgument .. => return .tooLong
    | _ => return if parent = .folder then .absent else .unreachable

/-- Looks at every path that a command line may name. -/
def lookAround (arguments : List String) : IO Surroundings := do
  let given ← ["MAX_STEPS", "MAX_LOOP_STEPS", "LOOKAHEAD_STEPS", "STACK"].mapM fun name => do
    let value ← IO.getEnv ("MSX_SDK_" ++ name)
    return ("MSX_SDK_" ++ name, value)
  let readings := [Assembler.options, Simulator.options].filterMap fun specs =>
    Arguments.parse? (Invocation.withCommon specs) arguments
  let paths := readings.flatMap fun a => a.others ++ a.given.map (·.2)
  let states ← (paths ++ paths.map tidyPath).mapM fun path => do
    let parent ← lookAt .folder (folderOf path)
    let state ← lookAt parent path
    return (path, state)
  return ⟨fun name => (given.lookup name).join, fun path => (states.lookup path).getD .absent⟩

/-- Writes a file. -/
def writeContent (path : String) : FileContent → IO Unit
  | .text value => IO.FS.writeFile path value
  | .bytes value => IO.FS.writeBinFile path ⟨(value.map Nat.toUInt8).toArray⟩

/-- Does what a transcript says. -/
def perform (t : Transcript) : IO UInt32 := do
  try
    for (path, content) in t.files do
      writeContent path content
    IO.print t.output
    IO.eprint t.errors
    return t.exit.code.toUInt32
  catch e =>
    let failure := Failure.argument (toString e)
    IO.eprintln (failure.text "")
    return failure.exit.code.toUInt32

/-- Runs a command. -/
def runCommand (run? : Surroundings → List String → Option Transcript)
    (arguments : List String) : IO UInt32 := do
  let around ← lookAround arguments
  match run? around arguments with
  | some t => perform t
  | none =>
    IO.eprintln "Error: invalid arguments"
    return Exit.invalidArguments.code.toUInt32

end Z80Workbench.Cli

open Z80Workbench.Cli

/-- The program. -/
def main : List String → IO UInt32
  | "msxasm" :: arguments => runCommand Assembler.run? arguments
  | "msxrun" :: arguments => runCommand Simulator.run? arguments
  | _ => do
    IO.eprintln "Error: the first argument is a command, msxasm or msxrun"
    return Exit.invalidArguments.code.toUInt32
