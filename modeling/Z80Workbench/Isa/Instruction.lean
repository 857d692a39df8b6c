import Z80Workbench.Isa.Condition
import Z80Workbench.Isa.Mnemonic
import Z80Workbench.Isa.Operand
import Z80Workbench.Source.Line

/-!
# Z80Workbench.Isa.Instruction

Instructions: an operation, an optional condition and operands. The condition of a jump, call or
return is split off, so that the operands are data operands only.
-/

namespace Z80Workbench

/-- An instruction with its operand text as written. -/
structure Instruction where
  operation : Operation
  condition : Option Condition
  operands : List Operand
  text : String
  deriving Repr, DecidableEq

namespace Instruction

open Text Source

/-- The condition among operand texts, and the texts without it. A jump or call with one operand
has a target of that name instead. -/
def splitCondition (m : Mnemonic) (parts : List (List Char)) :
    Option Condition × List (List Char) :=
  match parts with
  | [] => (none, [])
  | first :: rest =>
    if m.isConditional && (parts.length = 2 || m = .ret) then
      match Condition.ofName? (String.ofList (upper first)) with
      | some condition => (some condition, rest)
      | none => (none, parts)
    else (none, parts)

/-- Reads the operands of an operation. -/
def ofArgs (operation : Operation) (args : List Char) : Instruction :=
  let parts := splitOperands args
  let (condition, rest) :=
    match operation with
    | .mnemonic m => splitCondition m parts
    | _ => (none, parts)
  ⟨operation, condition, rest.map Operand.parse, String.ofList (trim args)⟩

/-- Reads an instruction from its word, in any letter case, and its operand text. -/
def parse (word args : String) : Instruction :=
  ofArgs (operationOf word.toList) args.toList

/-- The word of the instruction. -/
def word (i : Instruction) : String := i.operation.word

/-- Whether the instruction belongs to the language. -/
def isSupported (i : Instruction) : Bool :=
  match i.operation with
  | .mnemonic _ => true
  | _ => false

/-- The last operand, which is the destination of a control transfer. -/
def target? (i : Instruction) : Option Operand := i.operands.getLast?

end Instruction

/-- The instruction of a line with an operation. -/
def SourceLine.instruction? (line : SourceLine) : Option Instruction :=
  line.operation.map fun operation => Instruction.ofArgs operation line.args.toList

end Z80Workbench
