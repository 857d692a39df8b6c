import Z80Workbench.Assembly.Analysis
import Z80Workbench.Machine.Execute

/-!
# Z80Workbench.Walk.Program

Programs as walks see them: numbered lines, some of which hold an instruction, with the labels
and addresses that lead from one line to another.

Addresses below the firmware limit belong to the firmware, even if a line was assembled there;
only a label leads below it.
-/

namespace Z80Workbench

open Text

/-- An executable line: its instruction, or unknown word, and its address if it has one. -/
structure CodeLine where
  instruction : Instruction
  address : Option Nat
  deriving Repr, DecidableEq

/-- A program. Line `n` is at index `n - 1` of the code; labels are in capital letters. -/
structure Program where
  code : Array (Option CodeLine)
  labels : Labels
  symbols : Symbols
  image : Memory
  settings : Settings

/-- Where a control transfer leads: the line, if it leads to one, and the address. -/
structure Destination where
  line : Option Nat
  address : Option Int
  deriving Repr, DecidableEq

namespace Program

/-- The executable line in a text, at the address that a table gives to its number. -/
def codeLine? (addresses : Std.ExtTreeMap Nat Nat) (text : String) (number : Nat) :
    Option CodeLine :=
  match Source.parseLine? number text with
  | some line =>
    if line.isExecutable then line.instruction?.map fun i => ⟨i, addresses[number]?⟩ else none
  | none => none

/-- The program of some lines, with labels, symbols, an image, and the addresses of lines. -/
def ofLines (settings : Settings) (lines : List String) (labels : Labels) (symbols : Symbols)
    (image : Memory) (addresses : List (Nat × Nat)) : Program :=
  let addressTable : Std.ExtTreeMap Nat Nat := .ofList addresses
  { code := ((lines.zipIdx 1).map fun (text, number) => codeLine? addressTable text number).toArray
    labels := .ofList (labels.entries.map fun (name, line) => (upperString name, line))
    symbols
    image
    settings }

/-- The program of an analysed source. -/
def ofAnalysis (settings : Settings) (a : Analysis) : Program :=
  ofLines settings a.lines a.labels a.symbols a.memory a.layout.addresses

/-- What instructions of the program are executed in; the firmware's names are known. -/
def env (p : Program) : Machine.Env := ⟨⟨p.symbols, Firmware.address?⟩, p.image⟩

/-- The number of lines. -/
def size (p : Program) : Nat := p.code.size

/-- The executable line of a number. -/
def line? (p : Program) (number : Nat) : Option CodeLine :=
  if number = 0 then none else (p.code[number - 1]?).join

/-- The first executable line at or after an index of the code, with its number. -/
def executableFrom? (p : Program) (index : Nat) : Option (Nat × CodeLine) :=
  if _h : index < p.code.size then
    match p.code[index] with
    | some line => some (index + 1, line)
    | none => p.executableFrom? (index + 1)
  else none
termination_by p.code.size - index

/-- The first executable line at or after a line number; there is no line zero. -/
def executable? (p : Program) (number : Nat) : Option (Nat × CodeLine) :=
  if number = 0 then none else p.executableFrom? (number - 1)

/-- The line of a label, whatever the letter case and the white space around it. -/
def labelLine? (p : Program) (label : String) : Option Nat :=
  p.labels.get? (upperString (trimString label))

/-- The line at an address: the first executable one there, or else the line of the first
symbol that is a label with that value. -/
def lineAt? (p : Program) (address : Nat) : Option Nat :=
  match p.code.findIdx? fun line => (line.bind (·.address)).any (· % 65536 = address) with
  | some index => some (index + 1)
  | none =>
    p.symbols.entries.findSome? fun (name, value) =>
      if value = address then p.labels.get? name else none

/-- Where an address that a register holds leads. -/
def atAddress (p : Program) (address : Nat) : Destination := ⟨p.lineAt? address, some address⟩

/-- Where an expression leads: to the line of a label, into the firmware, or to the line at an
address. -/
def atExpression (p : Program) (text : String) : Destination :=
  let name := upperString (trimString text)
  match p.labels.get? name with
  | some line => ⟨some line, p.symbols.get? name⟩
  | none =>
    match (Expr.ofString name).value? p.env.scope with
    | none => ⟨none, none⟩
    | some address =>
      if address < p.settings.firmwareLimit then ⟨none, some address⟩ else p.atAddress address

/-- Where an operand leads. -/
def destination (p : Program) (m : Machine) : Option Mode → Destination
  | none => ⟨none, none⟩
  | some (.indirect .hl) => p.atAddress m.registers.hl
  | some (.indexed x _) => p.atAddress (m.registers.index x)
  | some mode => p.atExpression ((mode.expr?.map (·.text)).getD "")

end Program

end Z80Workbench
