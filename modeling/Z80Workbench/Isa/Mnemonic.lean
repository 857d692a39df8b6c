/-!
# Z80Workbench.Isa.Mnemonic

The instruction words, grouped by what they do, and the assembler directives.
-/

namespace Z80Workbench

/-- An operation on the accumulator and a second operand. -/
inductive Alu where
  | add | adc | sub | sbc | and | xor | or | cp
  deriving Repr, DecidableEq

/-- A shift or rotation of a register or memory byte. -/
inductive Shift where
  | rlc | rrc | rl | rr | sla | sra | sll | srl
  deriving Repr, DecidableEq

/-- A rotation of the accumulator. -/
inductive Rotation where
  | rlca | rrca | rla | rra
  deriving Repr, DecidableEq

/-- An operation on one bit. -/
inductive BitAction where
  | test | reset | set
  deriving Repr, DecidableEq

/-- How a block instruction moves on: downwards or upwards, once or until its count is used up. -/
structure Stride where
  down : Bool
  repeats : Bool
  deriving Repr, DecidableEq

/-- An instruction word. -/
inductive Mnemonic where
  | ld | push | pop | ex | exx
  | alu (op : Alu)
  | inc | dec | neg | cpl | scf | ccf | daa
  | rotate (op : Rotation)
  | shift (op : Shift)
  | bit (action : BitAction)
  | rld | rrd
  | jp | jr | djnz | call | rst | ret | reti | retn
  | input | output
  | blockCopy (stride : Stride)
  | blockSearch (stride : Stride)
  | blockInput (stride : Stride)
  | blockOutput (stride : Stride)
  | nop | halt | di | ei | im
  deriving Repr, DecidableEq

namespace Alu

/-- All operations, in the order of their codes. -/
def all : List Alu := [add, adc, sub, sbc, and, xor, or, cp]

/-- The word of an operation. -/
def name : Alu → String
  | add => "ADD" | adc => "ADC" | sub => "SUB" | sbc => "SBC"
  | and => "AND" | xor => "XOR" | or => "OR" | cp => "CP"

/-- The three bits of an operation in an opcode. -/
def code : Alu → Nat
  | add => 0 | adc => 1 | sub => 2 | sbc => 3 | and => 4 | xor => 5 | or => 6 | cp => 7

theorem code_lt (op : Alu) : op.code < 8 := by cases op <;> decide

end Alu

namespace Shift

/-- All shifts, in the order of their codes. -/
def all : List Shift := [rlc, rrc, rl, rr, sla, sra, sll, srl]

/-- The word of a shift. -/
def name : Shift → String
  | rlc => "RLC" | rrc => "RRC" | rl => "RL" | rr => "RR"
  | sla => "SLA" | sra => "SRA" | sll => "SLL" | srl => "SRL"

/-- The three bits of a shift in an opcode. -/
def code : Shift → Nat
  | rlc => 0 | rrc => 1 | rl => 2 | rr => 3 | sla => 4 | sra => 5 | sll => 6 | srl => 7

theorem code_lt (op : Shift) : op.code < 8 := by cases op <;> decide

end Shift

namespace Rotation

/-- All rotations of the accumulator. -/
def all : List Rotation := [rlca, rrca, rla, rra]

/-- The word of a rotation. -/
def name : Rotation → String
  | rlca => "RLCA" | rrca => "RRCA" | rla => "RLA" | rra => "RRA"

end Rotation

namespace BitAction

/-- All operations on a bit. -/
def all : List BitAction := [test, reset, set]

/-- The word of an operation on a bit. -/
def name : BitAction → String
  | test => "BIT" | reset => "RES" | set => "SET"

/-- The opcode of an operation on bit zero of register B. -/
def base : BitAction → Nat
  | test => 0x40 | reset => 0x80 | set => 0xC0

end BitAction

namespace Stride

/-- All strides. -/
def all : List Stride := [⟨false, false⟩, ⟨true, false⟩, ⟨false, true⟩, ⟨true, true⟩]

/-- The two bits of a stride in an opcode. -/
def code (s : Stride) : Nat := s.down.toNat * 8 + s.repeats.toNat * 16

end Stride

namespace Mnemonic

/-- The word of an instruction. -/
def name : Mnemonic → String
  | ld => "LD" | push => "PUSH" | pop => "POP" | ex => "EX" | exx => "EXX"
  | alu op => op.name
  | inc => "INC" | dec => "DEC" | neg => "NEG" | cpl => "CPL"
  | scf => "SCF" | ccf => "CCF" | daa => "DAA"
  | rotate op => op.name
  | shift op => op.name
  | bit action => action.name
  | rld => "RLD" | rrd => "RRD"
  | jp => "JP" | jr => "JR" | djnz => "DJNZ" | call => "CALL" | rst => "RST"
  | ret => "RET" | reti => "RETI" | retn => "RETN"
  | input => "IN" | output => "OUT"
  | blockCopy ⟨false, false⟩ => "LDI" | blockCopy ⟨true, false⟩ => "LDD"
  | blockCopy ⟨false, true⟩ => "LDIR" | blockCopy ⟨true, true⟩ => "LDDR"
  | blockSearch ⟨false, false⟩ => "CPI" | blockSearch ⟨true, false⟩ => "CPD"
  | blockSearch ⟨false, true⟩ => "CPIR" | blockSearch ⟨true, true⟩ => "CPDR"
  | blockInput ⟨false, false⟩ => "INI" | blockInput ⟨true, false⟩ => "IND"
  | blockInput ⟨false, true⟩ => "INIR" | blockInput ⟨true, true⟩ => "INDR"
  | blockOutput ⟨false, false⟩ => "OUTI" | blockOutput ⟨true, false⟩ => "OUTD"
  | blockOutput ⟨false, true⟩ => "OTIR" | blockOutput ⟨true, true⟩ => "OTDR"
  | nop => "NOP" | halt => "HALT" | di => "DI" | ei => "EI" | im => "IM"

/-- All instruction words. -/
def all : List Mnemonic :=
  [ld, push, pop, ex, exx] ++ Alu.all.map alu ++ [inc, dec, neg, cpl, scf, ccf, daa] ++
    Rotation.all.map rotate ++ Shift.all.map shift ++ BitAction.all.map bit ++
    [rld, rrd, jp, jr, djnz, call, rst, ret, reti, retn, input, output] ++
    Stride.all.map blockCopy ++ Stride.all.map blockSearch ++ Stride.all.map blockInput ++
    Stride.all.map blockOutput ++ [nop, halt, di, ei, im]

/-- The instruction of a word in capital letters. -/
def ofName? (s : String) : Option Mnemonic := all.find? (·.name == s)

/-- Whether the word can carry a condition as its first operand. -/
def isConditional (m : Mnemonic) : Bool :=
  m = jp || m = jr || m = call || m = ret

end Mnemonic

/-- An assembler directive. -/
inductive Directive where
  | equ | org
  | db | defb | defm
  | dw | defw
  | ds | defs
  | includeText | includeBytes | endSource
  | macroBegin | macroEnd
  | repeatBegin | reptBegin | repeatEnd
  deriving Repr, DecidableEq

namespace Directive

/-- All directives. -/
def all : List Directive :=
  [equ, org, db, defb, defm, dw, defw, ds, defs, includeText, includeBytes, endSource,
   macroBegin, macroEnd, repeatBegin, reptBegin, repeatEnd]

/-- The word of a directive. -/
def name : Directive → String
  | equ => "EQU" | org => "ORG"
  | db => "DB" | defb => "DEFB" | defm => "DEFM"
  | dw => "DW" | defw => "DEFW"
  | ds => "DS" | defs => "DEFS"
  | includeText => "INCLUDE" | includeBytes => "INCBIN" | endSource => "END"
  | macroBegin => "MACRO" | macroEnd => "ENDM"
  | repeatBegin => "REPEAT" | reptBegin => "REPT" | repeatEnd => "ENDR"

/-- The directive of a word in capital letters. -/
def ofName? (s : String) : Option Directive := all.find? (·.name == s)

/-- Directives that store bytes. -/
def storesBytes (d : Directive) : Bool := d = db || d = defb || d = defm

/-- Directives that store words. -/
def storesWords (d : Directive) : Bool := d = dw || d = defw

/-- Directives that reserve space. -/
def reservesSpace (d : Directive) : Bool := d = ds || d = defs

/-- Directives that open a repeated block. -/
def opensBlock (d : Directive) : Bool := d = repeatBegin || d = reptBegin

theorem ofName?_name (d : Directive) : ofName? d.name = some d := by
  cases d <;> decide

end Directive

/-- What a source line does. -/
inductive Operation where
  | mnemonic (m : Mnemonic)
  | directive (d : Directive)
  | unknown (word : String)
  deriving Repr, DecidableEq

namespace Operation

/-- The operation of a word in capital letters. -/
def ofWord (word : String) : Operation :=
  match Mnemonic.ofName? word with
  | some m => mnemonic m
  | none =>
    match Directive.ofName? word with
    | some d => directive d
    | none => unknown word

/-- The word of an operation. -/
def word : Operation → String
  | mnemonic m => m.name
  | directive d => d.name
  | unknown w => w

/-- Whether the word belongs to the language. -/
def isKnown : Operation → Bool
  | unknown _ => false
  | _ => true

/-- Whether the machine, or a reader of the step list, meets the line: an instruction or an
unknown word. -/
def isExecutable : Operation → Bool
  | directive _ => false
  | _ => true

/-- Reading a word keeps it. -/
theorem word_ofWord (w : String) : (ofWord w).word = w := by
  unfold ofWord
  split
  · rename_i m h
    simpa [word] using List.find?_some h
  · split
    · rename_i d h
      simpa [word] using List.find?_some h
    · rfl

end Operation

end Z80Workbench
