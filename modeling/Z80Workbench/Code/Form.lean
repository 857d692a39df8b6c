import Z80Workbench.Code.Field
import Z80Workbench.Isa.Instruction

/-!
# Z80Workbench.Code.Form

The machine code form of an instruction: its fields, found from the addressing modes of its
operands alone. Symbols only fill the fields afterwards, so the length of the code and the set
of supported operand combinations do not depend on them.

An unsupported combination may still hold operands that are read before it is refused, and an
error in one of those comes first. A form therefore lists the fields in the order in which they
are read, next to the code in the order in which it is stored.
-/

namespace Z80Workbench

/-- The fields of an instruction as they are read, and as they are stored if the combination
of operands is supported. -/
structure Form where
  reads : List Field
  code? : Option (List Field)
  deriving Repr, DecidableEq

namespace Form

/-- Code that is read as it is stored. -/
def code (fields : List Field) : Form := ⟨fields, some fields⟩

/-- Fixed code. -/
def fixed (bytes : List Nat) : Form := code (bytes.map Field.opcode)

/-- Code that ends with a byte from an expression. -/
def withByte (bytes : List Nat) (e : Expr) : Form :=
  code (bytes.map Field.opcode ++ [.byte e])

/-- Code that ends with a word from an expression. -/
def withWord (bytes : List Nat) (e : Expr) : Form :=
  code (bytes.map Field.opcode ++ [.word e])

/-- A combination that is refused after some fields have been read. -/
def refused (reads : List Field) : Form := ⟨reads, none⟩

/-- A combination that is refused at once. -/
def unsupported : Form := refused []

end Form

/-! ## Registers in opcodes -/

/-- The three bits of a register in an opcode; six stands for memory, and `i` and `r` have
none. -/
def Reg8.code? : Reg8 → Option Nat
  | .b => some 0 | .c => some 1 | .d => some 2 | .e => some 3
  | .h => some 4 | .l => some 5 | .a => some 7
  | .i | .r => none

/-- The two bits of a pair in an opcode. -/
def Pair.code? : Pair → Option Nat
  | .bc => some 0 | .de => some 1 | .hl => some 2 | .sp => some 3
  | _ => none

/-- The two bits of a pair in a stack opcode. -/
def Pair.stackCode? : Pair → Option Nat
  | .bc => some 0 | .de => some 1 | .hl => some 2 | .af => some 3
  | _ => none

/-- The opcode that turns HL into an index register in the opcode after it. -/
def Index.opcode : Index → Nat
  | .ix => 0xDD | .iy => 0xFD

/-- A byte operand as machine code sees it: the opcode in front, the three bits in the main
opcode, and the offset behind it. -/
structure Place where
  opening : List Field
  bits : Nat
  offset : List Field

namespace Place

/-- The place of a register, of the byte at HL, or of a byte beside an index register. -/
def ofMode? : Mode → Option Place
  | .reg8 register => register.code?.map fun bits => ⟨[], bits, []⟩
  | .indirect .hl => some ⟨[], 6, []⟩
  | .indexed x offset =>
    some ⟨[.opcode x.opcode], 6, [.offset (offset.getD Mode.zeroOffset)]⟩
  | _ => none

/-- Code with the main opcode behind the opening. -/
def form (place : Place) (opcode : Nat) : Form :=
  .code (place.opening ++ [.opcode opcode] ++ place.offset)

/-- Code of the bit group, where the offset stands in front of the last opcode. -/
def bitGroup (place : Place) (last : Field) : List Field :=
  place.opening ++ [.opcode 0xCB] ++ place.offset ++ [last]

end Place

namespace Form

/-! ## Loads -/

/-- Loads of a sixteen-bit register. -/
def loadPair : Pair → Mode → Form
  | .index x, .immediate e => .withWord [x.opcode, 0x21] e
  | .index x, .absolute e => .withWord [x.opcode, 0x2A] e
  | .hl, .absolute e => .withWord [0x2A] e
  | .sp, .reg16 .hl => .fixed [0xF9]
  | .sp, .reg16 (.index x) => .fixed [x.opcode, 0xF9]
  | p, .immediate e =>
    match p.code? with
    | some code => .withWord [0x01 + 16 * code] e
    | none => .unsupported
  | p, .absolute e =>
    match p.code? with
    | some code => .withWord [0xED, 0x4B + 16 * code] e
    | none => .unsupported
  | _, _ => .unsupported

/-- Stores of a sixteen-bit register at an address. -/
def storePair (address : Expr) : Pair → Form
  | .hl => .withWord [0x22] address
  | .index x => .withWord [x.opcode, 0x22] address
  | p =>
    match p.code? with
    | some code => .withWord [0xED, 0x43 + 16 * code] address
    | none => .unsupported

/-- Loads that are not between two places, refused after the offsets have been read. -/
def loadOther (offsets : List Field) : Mode → Mode → Form
  | .reg8 .a, .indirect .bc => .fixed [0x0A]
  | .reg8 .a, .indirect .de => .fixed [0x1A]
  | .reg8 .a, .absolute e => .withWord [0x3A] e
  | .indirect .bc, .reg8 .a => .fixed [0x02]
  | .indirect .de, .reg8 .a => .fixed [0x12]
  | .absolute e, .reg8 .a => .withWord [0x32] e
  | .absolute e, .reg16 p => storePair e p
  | .reg16 p, source =>
    match offsets with
    | [] => loadPair p source
    | _ => .refused offsets
  | _, _ => .refused offsets

/-- Loads. The interrupt registers exchange values with the accumulator only. -/
def load (target source : Mode) : Form :=
  match target, source with
  | .reg8 .i, .reg8 .a => .fixed [0xED, 0x47]
  | .reg8 .r, .reg8 .a => .fixed [0xED, 0x4F]
  | .reg8 .a, .reg8 .i => .fixed [0xED, 0x57]
  | .reg8 .a, .reg8 .r => .fixed [0xED, 0x5F]
  | _, _ =>
    match Place.ofMode? target, Place.ofMode? source, source with
    | some d, some s, _ =>
      if d.bits = 6 ∧ s.bits = 6 then .refused (d.offset ++ s.offset)
      else
        .code (d.opening ++ s.opening ++ [.opcode (0x40 + 8 * d.bits + s.bits)] ++
          d.offset ++ s.offset)
    | some d, none, .immediate e =>
      .code (d.opening ++ [.opcode (0x06 + 8 * d.bits)] ++ d.offset ++ [.byte e])
    | some d, none, _ => loadOther d.offset target source
    | none, some s, _ => loadOther s.offset target source
    | none, none, _ => loadOther [] target source

/-- Pushes and pops; `base` is the opcode for BC. -/
def stack (base : Nat) : Mode → Form
  | .reg16 (.index x) => .fixed [x.opcode, base + 0x20]
  | .reg16 p =>
    match p.stackCode? with
    | some code => .fixed [base + 16 * code]
    | none => .unsupported
  | _ => .unsupported

/-- Exchanges. -/
def exchange : Mode → Mode → Form
  | .reg16 .de, .reg16 .hl | .reg16 .hl, .reg16 .de => .fixed [0xEB]
  | .reg16 .af, .reg16 .afShadow => .fixed [0x08]
  | .indirect .sp, other =>
    match other.pair? with
    | some .hl => .fixed [0xE3]
    | some (.index x) => .fixed [x.opcode, 0xE3]
    | _ => .unsupported
  | _, _ => .unsupported

/-! ## Arithmetic -/

/-- Operations on the accumulator. -/
def accumulator (op : Alu) (source : Mode) : Form :=
  match Place.ofMode? source, source with
  | some place, _ => place.form (0x80 + 8 * op.code + place.bits)
  | none, .immediate e => .withByte [0xC6 + 8 * op.code] e
  | none, _ => .unsupported

/-- Additions and subtractions of pairs. An index register can be added to itself. -/
def pairs (op : Alu) : Pair → Pair → Form
  | .hl, p =>
    match op, p.code? with
    | .add, some code => .fixed [0x09 + 16 * code]
    | .adc, some code => .fixed [0xED, 0x4A + 16 * code]
    | .sbc, some code => .fixed [0xED, 0x42 + 16 * code]
    | _, _ => .unsupported
  | .index x, p =>
    let code? := if p = .index x then some 2 else if p = .hl then none else p.code?
    match op, code? with
    | .add, some code => .fixed [x.opcode, 0x09 + 16 * code]
    | _, _ => .unsupported
  | _, _ => .unsupported

/-- Two-operand and one-operand arithmetic. -/
def arithmetic (op : Alu) : List Mode → Form
  | [source] => accumulator op source
  | [.reg16 p, .reg16 q] => pairs op p q
  | [.reg8 .a, source] => accumulator op source
  | _ => .unsupported

/-- Increments and decrements; the opcodes are for B, BC and an index register. -/
def count (byteOpcode pairOpcode : Nat) (mode : Mode) : Form :=
  match Place.ofMode? mode, mode with
  | some place, _ => place.form (byteOpcode + 8 * place.bits)
  | none, .reg16 (.index x) => .fixed [x.opcode, pairOpcode + 0x20]
  | none, .reg16 p =>
    match p.code? with
    | some code => .fixed [pairOpcode + 16 * code]
    | none => .unsupported
  | none, _ => .unsupported

/-- Shifts and rotations. -/
def shift (op : Shift) (mode : Mode) : Form :=
  match Place.ofMode? mode with
  | some place => .code (place.bitGroup (.opcode (8 * op.code + place.bits)))
  | none => .unsupported

/-- Operations on one bit; its number is read before the offset of the place. -/
def bit (action : BitAction) : Mode → Mode → Form
  | .immediate number, mode =>
    match Place.ofMode? mode with
    | some place =>
      let last := Field.bit (action.base + place.bits) number
      ⟨last :: place.offset, some (place.bitGroup last)⟩
    | none => .refused [.bit action.base number]
  | _, _ => .unsupported

/-! ## Control transfers -/

/-- Jumps to an address; without a condition also to the address in HL or an index register
that has no offset. -/
def jump : Option Condition → Mode → Form
  | none, .indirect .hl => .fixed [0xE9]
  | none, .indexed x none => .fixed [x.opcode, 0xE9]
  | none, .immediate e => .withWord [0xC3] e
  | some condition, .immediate e => .withWord [0xC2 + 8 * condition.code] e
  | _, _ => .unsupported

/-- Relative jumps. -/
def jumpRelative : Option Condition → Mode → Form
  | none, .immediate e => .code [.opcode 0x18, .relative e]
  | some condition, .immediate e =>
    if condition.isRelative then .code [.opcode (0x20 + 8 * condition.code), .relative e]
    else .unsupported
  | _, _ => .unsupported

/-- Calls. -/
def call : Option Condition → Mode → Form
  | none, .immediate e => .withWord [0xCD] e
  | some condition, .immediate e => .withWord [0xC4 + 8 * condition.code] e
  | _, _ => .unsupported

/-- Returns. -/
def ret : Option Condition → Form
  | none => .fixed [0xC9]
  | some condition => .fixed [0xC0 + 8 * condition.code]

/-! ## Ports -/

/-- Input from a port to a register. -/
def input : Mode → Mode → Form
  | .reg8 .a, .absolute e => .withByte [0xDB] e
  | .reg8 register, .indirect .c =>
    match register.code? with
    | some bits => .fixed [0xED, 0x40 + 8 * bits]
    | none => .unsupported
  | _, _ => .unsupported

/-- Output from a register to a port. -/
def output : Mode → Mode → Form
  | .absolute e, .reg8 .a => .withByte [0xD3] e
  | .indirect .c, .reg8 register =>
    match register.code? with
    | some bits => .fixed [0xED, 0x41 + 8 * bits]
    | none => .unsupported
  | _, _ => .unsupported

/-! ## All instructions -/

/-- The code of an instruction without operands. -/
def implied? : Mnemonic → Option (List Nat)
  | .nop => some [0x00]
  | .halt => some [0x76]
  | .di => some [0xF3]
  | .ei => some [0xFB]
  | .exx => some [0xD9]
  | .daa => some [0x27]
  | .cpl => some [0x2F]
  | .scf => some [0x37]
  | .ccf => some [0x3F]
  | .rotate .rlca => some [0x07]
  | .rotate .rrca => some [0x0F]
  | .rotate .rla => some [0x17]
  | .rotate .rra => some [0x1F]
  | .neg => some [0xED, 0x44]
  | .reti => some [0xED, 0x4D]
  | .retn => some [0xED, 0x45]
  | .rld => some [0xED, 0x6F]
  | .rrd => some [0xED, 0x67]
  | .blockCopy s => some [0xED, 0xA0 + s.code]
  | .blockSearch s => some [0xED, 0xA1 + s.code]
  | .blockInput s => some [0xED, 0xA2 + s.code]
  | .blockOutput s => some [0xED, 0xA3 + s.code]
  | _ => none

/-- The form of an instruction with the given condition and operands. -/
def ofParts (m : Mnemonic) (condition : Option Condition) (modes : List Mode) : Form :=
  match implied? m, m, modes with
  | some bytes, _, [] => .fixed bytes
  | none, .ld, [target, source] => load target source
  | none, .push, [mode] => stack 0xC5 mode
  | none, .pop, [mode] => stack 0xC1 mode
  | none, .ex, [first, second] => exchange first second
  | none, .alu op, modes => arithmetic op modes
  | none, .inc, [mode] => count 0x04 0x03 mode
  | none, .dec, [mode] => count 0x05 0x0B mode
  | none, .shift op, [mode] => shift op mode
  | none, .bit action, [number, mode] => bit action number mode
  | none, .jp, [target] => jump condition target
  | none, .jr, [target] => jumpRelative condition target
  | none, .djnz, [.immediate target] => .code [.opcode 0x10, .relative target]
  | none, .call, [target] => call condition target
  | none, .ret, [] => ret condition
  | none, .rst, [.immediate vector] => .code [.restart vector]
  | none, .im, [mode] =>
    .code [.opcode 0xED, .interruptMode (mode.expr?.getD (Expr.ofString ""))]
  | none, .input, [target, port] => input target port
  | none, .output, [port, source] => output port source
  | _, _, _ => .unsupported

end Form

namespace Instruction

/-- The machine code form of an instruction. -/
def form (i : Instruction) : Form :=
  match i.operation with
  | .mnemonic m => Form.ofParts m i.condition (i.operands.map (·.mode))
  | _ => .unsupported

/-- The machine code of an instruction. -/
def encode (ctx : Context) (i : Instruction) : Except Cause (List Nat) := do
  let _ ← Field.fillAll ctx i.form.reads
  match i.form.code? with
  | some fields => Field.fillAll ctx fields
  | none => .error (.unsupportedOperands i.word i.text)

/-- The length of the machine code while addresses and later symbols are unknown, if the
instruction can be encoded at all. -/
def size? (symbols : Symbols) (i : Instruction) : Option Nat :=
  match i.encode { scope := { symbols }, lenient := true } with
  | .ok bytes => some bytes.length
  | .error _ => none

end Instruction

end Z80Workbench
