import Z80Workbench.Firmware
import Z80Workbench.Isa.Timing

/-!
# Z80Workbench.Assembly.Step

The step list: the executable lines of a source, each described for a debugger's view.
-/

namespace Z80Workbench

open Text

/-- The kinds of steps. -/
inductive StepKind where
  | instruction | call | jump | ret
  deriving Repr, DecidableEq

namespace StepKind

/-- The name of a kind. -/
def name : StepKind → String
  | instruction => "instruction" | call => "call" | jump => "jump" | ret => "return"

/-- The kind of an operation; a restart is a call. -/
def ofOperation : Operation → StepKind
  | .mnemonic .call | .mnemonic .rst => call
  | .mnemonic .jp | .mnemonic .jr | .mnemonic .djnz => jump
  | .mnemonic .ret | .mnemonic .reti | .mnemonic .retn => ret
  | _ => instruction

end StepKind

/-- An executable line in the step list. -/
structure Step where
  id : Nat
  line : Nat
  word : String
  operands : String
  kind : StepKind
  description : String
  cycles : Nat
  deriving Repr, DecidableEq

namespace Step

/-- What the firmware does for a call whose target is an address of it. -/
def firmwareNote? (scope : Expr.Scope) (i : Instruction) : Option String :=
  match StepKind.ofOperation i.operation, i.target?.map Operand.mode with
  | .call, some (.immediate e) =>
    (e.value? scope).bind fun address => Firmware.summaryAt? address
  | _, _ => none

/-- An instruction in words: the condition of a transfer is spelled out, and a firmware routine
that is called is named. -/
def describe (scope : Expr.Scope) (i : Instruction) (operands : String) : String :=
  let word := i.word
  let plain :=
    match i.condition with
    | some condition => word ++ " " ++ condition.description ++ " (" ++ operands ++ ")"
    | none => trimString (word ++ " " ++ operands)
  match firmwareNote? scope i with
  | some note => plain ++ " - " ++ note
  | none => plain

/-- The step of a line, if it is executable. -/
def ofLine? (scope : Expr.Scope) (line : SourceLine) (id : Nat) : Option Step :=
  if line.isExecutable then
    line.instruction?.map fun i =>
      { id
        line := line.number
        word := i.word
        operands := line.args
        kind := .ofOperation i.operation
        description := describe scope i line.args
        cycles := i.cycles }
  else none

/-- The steps of some lines, numbered from one. -/
def ofLines (scope : Expr.Scope) (lines : List SourceLine) : List Step :=
  ((lines.filter (·.isExecutable)).zipIdx 1).filterMap fun (line, id) => ofLine? scope line id

end Step

end Z80Workbench
