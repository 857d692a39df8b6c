import Z80Workbench.Assembly.Listing
import Z80Workbench.Assembly.Run
import Z80Workbench.Cli.Invocation

/-!
# Z80Workbench.Cli.Assembler

The command `msxasm`: it analyses a source file, prints an overview or the summary document, and
writes a listing, a symbol file and a memory image as asked. A source with errors gives nothing
but their report.
-/

namespace Z80Workbench.Cli.Assembler

open Text

/-- The name of the command. -/
def command : String := "msxasm"

/-- The work of the command, as failures name it. -/
def stage : String := "Analysis"

/-- The options that name files to write. -/
def fileOptions : List OptionSpec :=
  [{ name := "listing", letter := some 'l', hasValue := true },
   { name := "symbols", letter := some 's', hasValue := true },
   { name := "rom", letter := some 'r', hasValue := true }]

/-- The options of the command. -/
def options : List OptionSpec := { name := "json" } :: fileOptions

/-- What a tidy path leads to after some files have been written, any of which may now stand
where a folder was missing. -/
def lookAfter (around : Surroundings) (written : List String) (path : String) : PathState :=
  match around.look path with
  | .unreachable =>
    if written.any fun file => (file ++ "/").toList.isPrefixOf path.toList then .blocked
    else .unreachable
  | state => state

/-- Why no file can be written at a tidy path that leads to something. -/
def writeFailure? (path : String) : PathState → Option Failure
  | .file _ | .absent => none
  | .unreachable => some (.argument ("[Errno 2] No such file or directory: " ++ quoted path))
  | .blocked => some (.internal ("[Errno 20] Not a directory: " ++ quoted path))
  | .folder => some (.internal ("[Errno 21] Is a directory: " ++ quoted path))
  | .tooLong => some (.internal ("[Errno 36] File name too long: " ++ quoted path))

/-- Writes a file and says so. -/
def save (around : Surroundings) (arguments : Arguments) (path what : String)
    (content : FileContent) (t : Transcript) : Transcript :=
  let tidy := tidyPath path
  match writeFailure? tidy (lookAfter around (t.files.map (·.1)) tidy) with
  | some failure => t.fail stage failure
  | none => (t.write tidy content).note arguments.verbose s!"Wrote {what} to {tidy}"

/-- Writes the file of an option, if it is given. -/
def saveIfAsked (around : Surroundings) (arguments : Arguments) (option what : String)
    (content : Unit → FileContent) (t : Transcript) : Transcript :=
  match arguments.value? option with
  | some path => save around arguments path what (content ()) t
  | none => t

/-- Writes the memory image without gaps, if that is asked for. -/
def saveImage (around : Surroundings) (arguments : Arguments) (a : Analysis) (t : Transcript) :
    Transcript :=
  match arguments.value? "rom" with
  | none => t
  | some path =>
    match a.memory.exportBlock none none 0xFF with
    | .error _ => t.stop .buildError "Error: no bytes were assembled, nothing to write"
    | .ok bytes => save around arguments path s!"{bytes.length} bytes" (.bytes bytes) t

/-- The range of addresses that a memory image takes. -/
def imageRange (m : Memory) : List String :=
  match m.lowest?, m.highest? with
  | some lowest, some highest =>
    ["Image: $" ++ hexPadded 4 lowest ++ "-$" ++ hexPadded 4 highest]
  | _, _ => []

/-- The lines of the overview of an analysis. -/
def overview (a : Analysis) : List String :=
  let counts := s!"{a.steps.length} steps, {a.symbols.size} symbols, {a.memory.size} bytes"
  counts :: imageRange a.memory ++
    (if a.holdsCartridgeHeader then ["ROM header detected"] else []) ++
    [s!"Entry line: {a.entryLine}"] ++ a.findings.map fun finding => "  " ++ finding.text

/-- Prints the overview, and the warnings on the channel for errors. -/
def printOverview (a : Analysis) (t : Transcript) : Transcript :=
  let printed := (overview a).foldl Transcript.print t
  a.diagnostics.warnings.foldl (fun t warning => t.complain ("warning: " ++ warning)) printed

/-- Prints what is known of a source, and writes the files asked for. -/
def present (around : Surroundings) (arguments : Arguments) (a : Analysis) (t : Transcript) :
    Transcript :=
  let printed := if arguments.has "json" then t.print a.summary.text else printOverview a t
  printed
    |>.andThen (saveIfAsked around arguments "listing" "listing" fun _ => .text (a.listing ++ "\n"))
    |>.andThen (saveIfAsked around arguments "symbols" "symbols" fun _ => .text a.symbolFile)
    |>.andThen (saveImage around arguments a)

/-- Works on a source. -/
def work (around : Surroundings) (arguments : Arguments) (file source : String) : Transcript :=
  let t := ({} : Transcript).note arguments.verbose s!"Analyzing {file}..."
  match Analysis.run around.settings source file with
  | .error fault => t.fail stage (.ofFault fault)
  | .ok a =>
    if a.diagnostics.errors.isEmpty then present around arguments a t
    else t.stop .buildError a.diagnostics.report

/-- Whether an option names a folder as a file to write. -/
def namesFolder (around : Surroundings) (arguments : Arguments) : Bool :=
  fileOptions.any fun spec =>
    (arguments.value? spec.name).any fun path => around.look path = .folder

/-- Runs the command; `none` if the command line is no use of it. -/
def run? (around : Surroundings) (arguments : List String) : Option Transcript :=
  match Invocation.read? options around arguments with
  | none => none
  | some .version => some (.ofVersion command)
  | some (.work file source given) =>
    if namesFolder around given then none else some (work around given file source)

end Z80Workbench.Cli.Assembler
