import Z80Workbench.Code.Form
import Z80Workbench.Fault

/-!
# Z80Workbench.Code.LookUp

The table of index registers. An operand may address memory beside an index register under any
spelling of its name, but the opcode is looked up by that name, and the table has but two.
-/

namespace Z80Workbench

/-- The opcode of an index register by its name in capital letters. -/
def Index.opcodeOf? (name : String) : Option Nat :=
  ([Index.ix, Index.iy].find? (·.name == name)).map Index.opcode

/-- The name of an index register in an operand if the table does not have it. -/
def Operand.strayName? (o : Operand) : Option String :=
  o.indexName?.filter fun name => (Index.opcodeOf? name).isNone

/-- A look-up of an index register, and the fields that are read in front of it. -/
structure LookUp where
  reads : List Field
  name : String

namespace LookUp

/-- The look-up for an operand, if it needs one. -/
def of (reads : List Field) (o : Operand) : List LookUp := o.indexName?.toList.map (⟨reads, ·⟩)

/-- Looks the opcode up, unless a field in front of it cannot be filled. -/
def run (ctx : Context) (l : LookUp) : Except Fault Unit :=
  match Field.fillAll ctx l.reads with
  | .error _ => .ok ()
  | .ok _ =>
    match Index.opcodeOf? l.name with
    | some _ => .ok ()
    | none => .error (.noRegister l.name)

end LookUp

namespace Instruction

/-- The look-ups of an instruction in their order. In a load, the offset of the target is read
before the source is looked at; in an operation on a bit, its number comes first. -/
def lookUps (i : Instruction) : List LookUp :=
  match i.operation, i.operands with
  | .mnemonic .ld, [target, source] =>
    LookUp.of [] target ++
      LookUp.of ((Place.ofMode? target.mode).elim [] (·.offset)) source
  | .mnemonic (.alu _), [source] => LookUp.of [] source
  | .mnemonic (.alu _), [first, source] => if first.mode = .reg8 .a then LookUp.of [] source else []
  | .mnemonic .inc, [o] | .mnemonic .dec, [o] | .mnemonic (.shift _), [o] => LookUp.of [] o
  | .mnemonic (.bit action), [number, o] =>
    match number.mode with
    | .immediate e => LookUp.of [.bit action.base e] o
    | _ => []
  | .mnemonic .jp, [o] =>
    match i.condition, o.mode with
    | none, .indexed _ none => LookUp.of [] o
    | _, _ => []
  | _, _ => []

/-- Whether an index register whose name is in no table is to be exchanged with memory. No opcode is
looked up for it: an exchange takes the two names of the table only. -/
def exchangesStray (i : Instruction) : Bool :=
  match i.operation, i.operands with
  | .mnemonic .ex, [first, second] => first.mode = .indirect .sp && second.strayName?.isSome
  | _, _ => false

/-- A byte of machine code. -/
def checkedByte (n : Nat) : Except Fault Nat := if n < 256 then .ok n else .error (.noByte n)

/-- The machine code of an instruction, or why it has none; a fault is neither. -/
def checkedEncode (ctx : Context) (i : Instruction) : Except Fault (Except Cause (List Nat)) := do
  let _ ← i.lookUps.mapM (LookUp.run ctx)
  if i.exchangesStray then return .error (.unsupportedOperands i.word i.text)
  match i.encode ctx with
  | .ok bytes => return .ok (← bytes.mapM checkedByte)
  | .error cause => return .error cause

/-- The length of the machine code as `size?` has it. -/
def checkedSize? (symbols : Symbols) (i : Instruction) : Except Fault (Option Nat) := do
  match ← i.checkedEncode { scope := { symbols }, lenient := true } with
  | .ok bytes => return some bytes.length
  | .error _ => return none

end Instruction

end Z80Workbench
