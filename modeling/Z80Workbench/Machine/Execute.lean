import Z80Workbench.Firmware
import Z80Workbench.Isa.Instruction
import Z80Workbench.Machine.Arithmetic
import Z80Workbench.Machine.Basic

/-!
# Z80Workbench.Machine.Execute

Executing instructions. Data movement, arithmetic, the stack and the video chip are done in
full. Of control flow, only the program counter and the stack are: which line runs next is
decided by a walk.

An operand whose value cannot be resolved leaves its destination as it is. A combination of
operands that has no meaning here leaves the machine as it is.
-/

namespace Z80Workbench.Machine

/-! ## Operands -/

/-- The value of an expression. -/
def Env.value? (env : Env) (e : Expr) : Option Nat := e.value? env.scope

/-- The memory address of an operand. The port register is none. -/
def addressOf? (env : Env) (m : Machine) : Mode → Option Nat
  | .indirect p => p.pair?.map m.pair
  | .indexed x offset =>
    (env.value? (offset.getD Mode.zeroOffset)).map fun d =>
      word (m.registers.index x + signed 16 d)
  | .absolute e => env.value? e
  | _ => none

/-- The byte that an operand stands for. -/
def byteOf? (env : Env) (m : Machine) : Mode → Option Nat
  | .reg8 register => some (m.registers.get8 register)
  | .immediate e => (env.value? e).map lowByte
  | .reg16 _ => none
  | mode => (m.addressOf? env mode).map (m.byteAt env)

/-- Stores a byte where an operand stands. -/
def setByte? (env : Env) (m : Machine) (mode : Mode) (value : Nat) : Option Machine :=
  match mode with
  | .reg8 register => some (m.set8 register value)
  | mode => (m.addressOf? env mode).map fun address => m.store address value

/-- The word that an operand stands for. -/
def wordOf? (env : Env) (m : Machine) : Mode → Option Nat
  | .reg16 p => some (m.pair p)
  | .immediate e => env.value? e
  | .absolute e => (env.value? e).map (m.wordAt env)
  | _ => none

/-! ## Loads and exchanges -/

/-- Loads the accumulator from an interrupt register, which sets flags. -/
def loadInterrupt (m : Machine) (value : Nat) : Machine :=
  { m.setA value with
    flags := { m.flags with z := value = 0, s := Arithmetic.negative8 value, pv := false } }

/-- Stores a register pair or a byte at the address of a memory operand. -/
def loadMemory (env : Env) (m : Machine) (target source : Mode) : Machine :=
  match m.addressOf? env target, source with
  | some address, .reg16 p => m.storeWord address (m.pair p)
  | some address, source =>
    match m.byteOf? env source with
    | some value => m.store address value
    | none => m
  | none, _ => m

/-- Loads. The pair of accumulator and flags, and its shadow, are no destination. -/
def load (env : Env) (m : Machine) (target source : Mode) : Machine :=
  match target, source with
  | .reg8 .a, .reg8 .i => m.loadInterrupt m.registers.i
  | .reg8 .a, .reg8 .r => m.loadInterrupt (m.registers.r % 128)
  | .reg8 register, source =>
    match m.byteOf? env source with
    | some value => m.set8 register value
    | none => m
  | .reg16 p, source =>
    match m.wordOf? env source with
    | some value => { m with registers := (m.registers.setPair? p value).getD m.registers }
    | none => m
  | .immediate _, _ => m
  | target, source => m.loadMemory env target source

/-- Exchanges DE and HL. -/
def exchangeDeHl (m : Machine) : Machine :=
  { m with registers := (m.registers.setDe m.registers.hl).setHl m.registers.de }

/-- Exchanges accumulator and flags with their shadow. -/
def exchangeAf (m : Machine) : Machine :=
  let af := m.af
  let exchanged := m.setAf m.registers.shadow.af
  { exchanged with
    registers :=
      { exchanged.registers with
        shadow := { m.registers.shadow with a := highByte af, f := lowByte af } } }

/-- Exchanges the word on top of the stack with a pair. -/
def exchangeTop (env : Env) (m : Machine) (p : Pair) : Except UnknownRegister Machine :=
  if p = .af then .error ⟨p.name⟩
  else (m.storeWord m.registers.sp (m.pair p)).setPair p (m.top env)

/-- Exchanges. Parentheses around DE and HL make no difference. -/
def exchange (env : Env) (m : Machine) (first second : Mode) : Except UnknownRegister Machine :=
  match first.pair?, second.pair? with
  | some .de, some .hl | some .hl, some .de => .ok m.exchangeDeHl
  | some .af, some .afShadow => .ok m.exchangeAf
  | _, _ =>
    match first, second with
    | .indirect .sp, .reg16 p => m.exchangeTop env p
    | _, _ => .ok m

/-- Exchanges the three general pairs with their shadows. -/
def exchangeShadow (m : Machine) : Machine :=
  let regs := m.registers
  let bank := regs.shadow
  { m with
    registers :=
      { regs with
        b := bank.b, c := bank.c, d := bank.d, e := bank.e, h := bank.h, l := bank.l
        shadow :=
          { bank with
            b := regs.b, c := regs.c, d := regs.d, e := regs.e, h := regs.h, l := regs.l } } }

/-! ## Arithmetic -/

/-- An operation on the accumulator. -/
def accumulate (env : Env) (m : Machine) (op : Alu) (source : Mode) : Machine :=
  match m.byteOf? env source with
  | some value =>
    let (a, flags) := Arithmetic.accumulator op m.registers.a value m.flags.c
    { m with registers := { m.registers with a }, flags }
  | none => m

/-- An operation on HL or an index register. -/
def accumulatePair (env : Env) (m : Machine) (op : Alu) (p : Pair) (source : Mode) : Machine :=
  let isWide :=
    match p with
    | .hl | .index _ => true
    | _ => false
  match isWide, m.wordOf? env source with
  | true, some value =>
    match Arithmetic.pairs? op (m.pair p) value m.flags with
    | some (result, flags) =>
      { m with registers := (m.registers.setPair? p result).getD m.registers, flags }
    | none => m
  | _, _ => m

/-- Arithmetic with one operand or two. The first of two operands other than a pair does not
matter: it stands for the accumulator. -/
def arithmetic (env : Env) (m : Machine) (op : Alu) : List Mode → Machine
  | [.reg16 p, source] => m.accumulatePair env op p source
  | [_, source] => m.accumulate env op source
  | [source] => m.accumulate env op source
  | _ => m

/-- Increments or decrements a byte in a register or in memory. -/
def countByte (env : Env) (m : Machine) (down : Bool) (mode : Mode) (value : Nat) : Machine :=
  let result := if down then Arithmetic.decrement value else Arithmetic.increment value
  match m.setByte? env mode result with
  | some written =>
    { written with
      flags :=
        { m.flags with
          z := result = 0
          s := Arithmetic.negative8 result
          pv := value = if down then 0x80 else 0x7F } }
  | none => m

/-- Increments or decrements. Pairs set no flags. -/
def count (env : Env) (m : Machine) (down : Bool) (mode : Mode) : Machine :=
  match mode with
  | .reg16 p =>
    { m with
      registers := (m.registers.setPair? p (Arithmetic.move down (m.pair p))).getD m.registers }
  | .immediate _ => m
  | mode =>
    match m.byteOf? env mode with
    | some value => m.countByte env down mode value
    | none => m

/-- Negates the accumulator. -/
def negate (m : Machine) : Machine :=
  let (a, flags) := Arithmetic.sub8 0 m.registers.a false
  { m with registers := { m.registers with a }, flags }

/-- Inverts every bit of the accumulator. -/
def invert (m : Machine) : Machine := m.setA (255 - m.registers.a)

/-- Sets the carry flag to a value. -/
def setCarry (m : Machine) (carry : Bool) : Machine :=
  { m with flags := { m.flags with c := carry } }

/-! ## Rotations, shifts and bits -/

/-- Rotates the accumulator, which changes no flag but carry. -/
def rotate (m : Machine) (op : Rotation) : Machine :=
  let (a, carry) := Arithmetic.rotate op m.registers.a m.flags.c
  (m.setA a).setCarry carry

/-- Shifts a byte in a register or in memory. -/
def shift (env : Env) (m : Machine) (op : Shift) (mode : Mode) : Machine :=
  match mode with
  | .immediate _ => m
  | mode =>
    match m.byteOf? env mode with
    | some value =>
      let (result, carry) := Arithmetic.shift op value m.flags.c
      match m.setByte? env mode result with
      | some written => { written with flags := Arithmetic.parityFlags result carry }
      | none => m
    | none => m

/-- Tests a bit of a byte: the zero flag tells that it is clear. -/
def testBit (m : Machine) (value bit : Nat) : Machine :=
  let clear := !value.testBit bit
  { m with flags := { m.flags with z := clear, s := bit = 7 && !clear, pv := clear } }

/-- Works on one bit of a byte. -/
def changeBit (env : Env) (m : Machine) (action : BitAction) (number mode : Mode) : Machine :=
  match number.expr?.bind env.value?, m.byteOf? env mode with
  | some bit, some value =>
    if bit < 8 then
      match action with
      | .test => m.testBit value bit
      | .set => (m.setByte? env mode (value ||| 1 <<< bit)).getD m
      | .reset =>
        (m.setByte? env mode (if value.testBit bit then value - 1 <<< bit else value)).getD m
    else m
  | _, _ => m

/-- Gives the accumulator and the byte at HL new values, and sets flags from the former. -/
def setDigits (m : Machine) (a value : Nat) : Machine :=
  { (m.store m.registers.hl value).setA a with flags := Arithmetic.parityFlags a m.flags.c }

/-- Rotates three digits to the left: the low one of the accumulator and both at HL. -/
def rotateDigitLeft (env : Env) (m : Machine) : Machine :=
  let a := m.registers.a
  let value := m.byteAt env m.registers.hl
  m.setDigits (a / 16 * 16 + value / 16) (value * 16 % 256 + a % 16)

/-- Rotates three digits to the right. -/
def rotateDigitRight (env : Env) (m : Machine) : Machine :=
  let a := m.registers.a
  let value := m.byteAt env m.registers.hl
  m.setDigits (a / 16 * 16 + value % 16) (a % 16 * 16 + value / 16)

/-! ## Control transfers -/

/-- Jumps: to a register in parentheses, or to the value of the operand. -/
def jump (env : Env) (m : Machine) (target : Option Mode) : Machine :=
  match target with
  | some (.indirect .hl) => m.setPc m.registers.hl
  | some (.indexed x _) => m.setPc (m.registers.index x)
  | some mode =>
    match mode.expr?.bind env.value? with
    | some address => m.setPc address
    | none => m
  | none => m

/-- The bytes of memory from an address on. -/
def block (env : Env) (m : Machine) (address length : Nat) : List Nat :=
  (List.range length).map fun i => m.byteAt env (address + i)

/-- The effect of a firmware routine on video memory. -/
def callFirmware (env : Env) (m : Machine) (address : Nat) : Machine :=
  let regs := m.registers
  if address = Firmware.writeByte then
    { m with video := m.video.store regs.hl regs.a }
  else if address = Firmware.fillBlock then
    { m with video := m.video.fill regs.hl regs.bc regs.a }
  else if address = Firmware.copyBlock then
    { m with video := m.video.load regs.de (m.block env regs.hl regs.bc) }
  else m

/-- Calls an address: pushes the address after the call, which takes `length` bytes, and goes
to the target if it has a value. -/
def call (env : Env) (m : Machine) (length : Nat) (target : Option Mode) : Machine :=
  let pushed := m.push ((m.registers.pc + length) % 65536)
  match (target.bind Mode.expr?).bind env.value? with
  | some address => (pushed.setPc address).callFirmware env address
  | none => pushed

/-! ## Ports -/

/-- The port of an operand. -/
def portOf? (env : Env) (m : Machine) : Mode → Option Nat
  | .indirect .c => some m.registers.c
  | .absolute e | .immediate e => env.value? e
  | _ => none

/-- Writes a port; ports without a device take nothing. -/
def output (env : Env) (m : Machine) (port source : Mode) : Machine :=
  match m.portOf? env port, m.byteOf? env source with
  | some p, some value => { m with video := (m.video.output? p value).getD m.video }
  | _, _ => m

/-- Reads a port into a register. Flags are set if the port is given by register C. -/
def input (env : Env) (m : Machine) (target port : Mode) : Machine :=
  match target, (m.portOf? env port).bind m.video.input? with
  | .reg8 register, some (value, video) =>
    let flags :=
      match port with
      | .indirect _ => Arithmetic.parityFlags value m.flags.c
      | _ => m.flags
    { m.set8 register value with video, flags }
  | _, _ => m

/-! ## Block instructions -/

/-- Repeats a step. -/
def iterate (step : Machine → Machine) : Nat → Machine → Machine
  | 0, m => m
  | n + 1, m => iterate step n (step m)

/-- The number of times that a block instruction runs: once, or as its counter says, where
zero stands for the counter's full range. -/
def runs (stride : Stride) (counter range : Nat) : Nat :=
  if stride.repeats then (if counter = 0 then range else counter) else 1

/-- Counts BC down. -/
def countBc (m : Machine) : Machine :=
  { m with registers := m.registers.setBc (Arithmetic.move true m.registers.bc) }

/-- Tells in the overflow flag whether BC is not used up. -/
def flagBc (m : Machine) : Machine :=
  { m with flags := { m.flags with pv := m.registers.bc ≠ 0 } }

@[simp] theorem registers_flagBc (m : Machine) : m.flagBc.registers = m.registers := rfl

/-- Copies one byte from HL to DE and moves both on. -/
def copyByte (env : Env) (down : Bool) (m : Machine) : Machine :=
  let copied := m.store m.registers.de (m.byteAt env m.registers.hl)
  let regs := copied.registers
  let moved := (regs.setHl (Arithmetic.move down regs.hl)).setDe (Arithmetic.move down regs.de)
  countBc { copied with registers := moved }

/-- Copies a block. The overflow flag is set once, behind the last byte. -/
def blockCopy (env : Env) (m : Machine) (stride : Stride) : Machine :=
  (iterate (copyByte env stride.down) (runs stride m.registers.bc 65536) m).flagBc

/-- Compares the accumulator with the byte at HL and moves on. -/
def searchByte (env : Env) (down : Bool) (m : Machine) : Machine :=
  let difference := byte (m.registers.a - m.byteAt env m.registers.hl)
  let moved := m.setHl (Arithmetic.move down m.registers.hl)
  countBc
    { moved with
      flags := { m.flags with z := difference = 0, s := Arithmetic.negative8 difference } }

/-- Searches a block until a byte equals the accumulator. -/
def searchBlock (env : Env) (down : Bool) : Nat → Machine → Machine
  | 0, m => m
  | n + 1, m =>
    let searched := m.searchByte env down
    if searched.flags.z then searched else searchBlock env down n searched

/-- Searches a block. The overflow flag is set once, behind the last byte. -/
def blockSearch (env : Env) (m : Machine) (stride : Stride) : Machine :=
  (searchBlock env stride.down (runs stride m.registers.bc 65536) m).flagBc

/-- Moves HL on and counts B down. -/
def countB (down : Bool) (m : Machine) : Machine :=
  let b := Arithmetic.decrement m.registers.b
  { m with registers := { m.registers.setHl (Arithmetic.move down m.registers.hl) with b } }

/-- Tells in the zero flag whether B is used up. -/
def flagB (m : Machine) : Machine :=
  { m with flags := { m.flags with z := m.registers.b = 0 } }

@[simp] theorem registers_flagB (m : Machine) : m.flagB.registers = m.registers := rfl

/-- Writes the byte at HL to the port in C. -/
def sendByte (env : Env) (down : Bool) (m : Machine) : Machine :=
  let value := m.byteAt env m.registers.hl
  countB down { m with video := (m.video.output? m.registers.c value).getD m.video }

/-- Reads the port in C to the byte at HL. -/
def receiveByte (down : Bool) (m : Machine) : Machine :=
  match m.video.input? m.registers.c with
  | some (value, video) => countB down { m.store m.registers.hl value with video }
  | none => countB down m

/-- Writes a block to a port. The zero flag is set once, behind the last byte. -/
def blockOutput (env : Env) (m : Machine) (stride : Stride) : Machine :=
  (iterate (sendByte env stride.down) (runs stride m.registers.b 256) m).flagB

/-- Reads a block from a port. The zero flag is set once, behind the last byte. -/
def blockInput (m : Machine) (stride : Stride) : Machine :=
  (iterate (receiveByte stride.down) (runs stride m.registers.b 256) m).flagB

/-! ## All instructions -/

/-- Performs an instruction with the given condition and operands. -/
def perform (env : Env) (m : Machine) (mnemonic : Mnemonic) (condition : Option Condition)
    (modes : List Mode) : Except UnknownRegister Machine :=
  match mnemonic, modes with
  | .ld, [target, source] => .ok (m.load env target source)
  | .push, .reg16 p :: _ => .ok (m.push (m.pair p))
  | .pop, .reg16 p :: _ => m.drop.setPair p (m.top env)
  | .ex, [first, second] => m.exchange env first second
  | .exx, _ => .ok m.exchangeShadow
  | .alu op, modes => .ok (m.arithmetic env op modes)
  | .inc, mode :: _ => .ok (m.count env false mode)
  | .dec, mode :: _ => .ok (m.count env true mode)
  | .neg, _ => .ok m.negate
  | .cpl, _ => .ok m.invert
  | .scf, _ => .ok (m.setCarry true)
  | .ccf, _ => .ok (m.setCarry !m.flags.c)
  | .rotate op, _ => .ok (m.rotate op)
  | .shift op, mode :: _ => .ok (m.shift env op mode)
  | .bit action, [number, mode] => .ok (m.changeBit env action number mode)
  | .rld, _ => .ok (m.rotateDigitLeft env)
  | .rrd, _ => .ok (m.rotateDigitRight env)
  | .jp, modes | .jr, modes =>
    .ok (if m.flags.allow condition then m.jump env modes.getLast? else m)
  | .djnz, _ => .ok (m.set8 .b (Arithmetic.decrement m.registers.b))
  | .call, modes => .ok (if m.flags.allow condition then m.call env 3 modes.getLast? else m)
  | .rst, modes => .ok (m.call env 1 modes.getLast?)
  | .ret, _ => .ok (if m.flags.allow condition then m.popPc env else m)
  | .reti, _ | .retn, _ => .ok (m.popPc env)
  | .input, [target, port] => .ok (m.input env target port)
  | .output, [port, source] => .ok (m.output env port source)
  | .blockCopy stride, _ => .ok (m.blockCopy env stride)
  | .blockSearch stride, _ => .ok (m.blockSearch env stride)
  | .blockInput stride, _ => .ok (m.blockInput stride)
  | .blockOutput stride, _ => .ok (m.blockOutput env stride)
  | _, _ => .ok m

/-- Executes an instruction; a word that is none does nothing. -/
def execute (env : Env) (m : Machine) (i : Instruction) : Except UnknownRegister Machine :=
  match i.operation with
  | .mnemonic mnemonic => m.perform env mnemonic i.condition (i.operands.map (·.mode))
  | _ => .ok m

/-- Executes an instruction at an address, if it has one, which the program counter is set
to. -/
def executeAt (env : Env) (m : Machine) (i : Instruction) (address : Option Nat) :
    Except UnknownRegister Machine :=
  ((address.map m.setPc).getD m).execute env i

/-- Executes a source line. Lines without an instruction leave the machine as it is. -/
def runLine (env : Env) (m : Machine) (line : SourceLine) (address : Option Nat) :
    Except UnknownRegister Machine :=
  match line.isExecutable, line.instruction? with
  | true, some i => m.executeAt env i address
  | _, _ => .ok m

/-- Executes a line of source text. -/
def runText (env : Env) (m : Machine) (text : String) (address : Option Nat) :
    Except UnknownRegister Machine :=
  match Source.parseLine? 1 text with
  | some line => m.runLine env line address
  | none => .ok m

end Z80Workbench.Machine
