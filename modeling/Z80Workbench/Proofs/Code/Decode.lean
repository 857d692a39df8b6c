import Z80Workbench.Machine.Execute

/-!
# Z80Workbench.Proofs.Code.Decode

Machine code read back.  An opcode falls into a quadrant (its upper two bits), a row and a column
(three bits each), and an index prefix in front of it puts an index register, or the byte beside
one, in the place of HL.  The reader takes one instruction from the front of some bytes and leaves
the rest, with a number wherever the instruction had an expression.
-/

namespace Z80Workbench

/-- What the machine is told to do: an instruction without its spelling. -/
structure Command where
  mnemonic : Mnemonic
  condition : Option Condition := none
  modes : List Mode := []

namespace Command

/-- Performs a command. -/
def run (env : Machine.Env) (m : Machine) (c : Command) : Except UnknownRegister Machine :=
  m.perform env c.mnemonic c.condition c.modes

end Command

/-- The expression of a number. -/
def Expr.ofNat (n : Nat) : Expr := ⟨toString n, .number n, none⟩

/-! ## registers in opcodes -/

/-- The register of three bits; six stands for memory. -/
def Reg8.ofCode? : Nat → Option Reg8
  | 0 => some .b | 1 => some .c | 2 => some .d | 3 => some .e
  | 4 => some .h | 5 => some .l | 7 => some .a
  | _ => none

/-- The index register of a prefix. -/
def Index.ofOpcode? : Nat → Option Index
  | 0xDD => some .ix
  | 0xFD => some .iy
  | _ => none

/-- The pair that stands in the place of HL. -/
def Pair.ofIndex? : Option Index → Pair
  | some x => .index x
  | none => .hl

/-- The pair of two bits, with another one for the last. -/
def Pair.ofCode (x? : Option Index) (last : Pair) : Nat → Pair
  | 0 => .bc | 1 => .de
  | 2 => .ofIndex? x?
  | _ => last

theorem Alu.getElem?_code (op : Alu) : all[op.code]? = some op := by
  cases op <;> rfl

theorem Shift.getElem?_code (op : Shift) : all[op.code]? = some op := by
  cases op <;> rfl

/-! ## the reader -/

/-- Reads from the front of some bytes. -/
abbrev Reader := StateT (List Nat) Option

namespace Reader

/-- The next byte. -/
def next : Reader Nat
  | [] => none
  | b :: rest => some (b, rest)

/-- The next byte as a value. -/
def byteValue : Reader Expr := do return .ofNat (← next)

/-- The next word as a value. -/
def wordValue : Reader Expr := do
  let low ← next
  let high ← next
  return .ofNat (wordOf high low)

/-- The target of a relative branch at an address. -/
def target (address : Nat) : Reader Expr := do
  return .ofNat (word (address + 2 + signed 8 (← next)))

/-- The byte of three bits, with its offset if it stands beside an index register. -/
def place (x? : Option Index) (bits : Nat) : Reader Mode :=
  match Reg8.ofCode? bits, x? with
  | some register, _ => return .reg8 register
  | none, none => return .indirect .hl
  | none, some x => do
    return .indexed x (some (.ofNat (word (signed 8 (← next)))))

/-! ## quadrants -/

/-- Small loads, counting, relative branches and rotations. -/
def lower (address : Nat) (x? : Option Index) (row : Nat) : Nat → Reader Command
  | 0 =>
    match row with
    | 0 => return ⟨.nop, none, []⟩
    | 1 => return ⟨.ex, none, [.reg16 .af, .reg16 .afShadow]⟩
    | 2 => do return ⟨.djnz, none, [.immediate (← target address)]⟩
    | 3 => do return ⟨.jr, none, [.immediate (← target address)]⟩
    | _ => do return ⟨.jr, Condition.all[row - 4]?, [.immediate (← target address)]⟩
  | 1 =>
    let pair := Pair.ofCode x? .sp (row / 2)
    if row % 2 = 0 then do return ⟨.ld, none, [.reg16 pair, .immediate (← wordValue)]⟩
    else return ⟨.alu .add, none, [.reg16 (.ofIndex? x?), .reg16 pair]⟩
  | 2 =>
    match row with
    | 0 => return ⟨.ld, none, [.indirect .bc, .reg8 .a]⟩
    | 1 => return ⟨.ld, none, [.reg8 .a, .indirect .bc]⟩
    | 2 => return ⟨.ld, none, [.indirect .de, .reg8 .a]⟩
    | 3 => return ⟨.ld, none, [.reg8 .a, .indirect .de]⟩
    | 4 => do return ⟨.ld, none, [.absolute (← wordValue), .reg16 (.ofIndex? x?)]⟩
    | 5 => do return ⟨.ld, none, [.reg16 (.ofIndex? x?), .absolute (← wordValue)]⟩
    | 6 => do return ⟨.ld, none, [.absolute (← wordValue), .reg8 .a]⟩
    | _ => do return ⟨.ld, none, [.reg8 .a, .absolute (← wordValue)]⟩
  | 3 =>
    let pair := Pair.ofCode x? .sp (row / 2)
    return ⟨if row % 2 = 0 then .inc else .dec, none, [.reg16 pair]⟩
  | 4 => do return ⟨.inc, none, [← place x? row]⟩
  | 5 => do return ⟨.dec, none, [← place x? row]⟩
  | 6 => do
    let mode ← place x? row
    return ⟨.ld, none, [mode, .immediate (← byteValue)]⟩
  | _ =>
    match row with
    | 0 => return ⟨.rotate .rlca, none, []⟩
    | 1 => return ⟨.rotate .rrca, none, []⟩
    | 2 => return ⟨.rotate .rla, none, []⟩
    | 3 => return ⟨.rotate .rra, none, []⟩
    | 4 => return ⟨.daa, none, []⟩
    | 5 => return ⟨.cpl, none, []⟩
    | 6 => return ⟨.scf, none, []⟩
    | _ => return ⟨.ccf, none, []⟩

/-- Loads between places; the one between memory and memory would be is a halt. -/
def loads (x? : Option Index) (row column : Nat) : Reader Command :=
  if row = 6 ∧ column = 6 then return ⟨.halt, none, []⟩
  else do
    let mode ← place x? row
    return ⟨.ld, none, [mode, ← place x? column]⟩

/-- Transfers, the stack, ports, and what has no other place. -/
def upper (x? : Option Index) (row : Nat) : Nat → Reader Command
  | 0 => return ⟨.ret, Condition.all[row]?, []⟩
  | 1 =>
    match row with
    | 1 => return ⟨.ret, none, []⟩
    | 3 => return ⟨.exx, none, []⟩
    | 5 =>
      return ⟨.jp, none, [(x?.map fun x => Mode.indexed x none).getD (.indirect .hl)]⟩
    | 7 => return ⟨.ld, none, [.reg16 .sp, .reg16 (.ofIndex? x?)]⟩
    | _ => return ⟨.pop, none, [.reg16 (Pair.ofCode x? .af (row / 2))]⟩
  | 2 => do return ⟨.jp, Condition.all[row]?, [.immediate (← wordValue)]⟩
  | 3 =>
    match row with
    | 0 => do return ⟨.jp, none, [.immediate (← wordValue)]⟩
    | 2 => do return ⟨.output, none, [.absolute (← byteValue), .reg8 .a]⟩
    | 3 => do return ⟨.input, none, [.reg8 .a, .absolute (← byteValue)]⟩
    | 4 => return ⟨.ex, none, [.indirect .sp, .reg16 (.ofIndex? x?)]⟩
    | 5 => return ⟨.ex, none, [.reg16 .de, .reg16 .hl]⟩
    | 6 => return ⟨.di, none, []⟩
    | _ => return ⟨.ei, none, []⟩
  | 4 => do return ⟨.call, Condition.all[row]?, [.immediate (← wordValue)]⟩
  | 5 =>
    match row with
    | 1 => do return ⟨.call, none, [.immediate (← wordValue)]⟩
    | _ => return ⟨.push, none, [.reg16 (Pair.ofCode x? .af (row / 2))]⟩
  | 6 => do return ⟨.alu (← Alu.all[row]?), none, [.immediate (← byteValue)]⟩
  | _ => return ⟨.rst, none, [.immediate (.ofNat (8 * row))]⟩

/-- Opcodes without a prefix or with an index prefix. -/
def plain (address : Nat) (x? : Option Index) (row column : Nat) : Nat → Reader Command
  | 0 => lower address x? row column
  | 1 => loads x? row column
  | 2 => do return ⟨.alu (← Alu.all[row]?), none, [← place x? column]⟩
  | _ => upper x? row column

/-! ## prefixes -/

/-- A shift of a byte, or an operation on one of its bits. -/
def bitCommand (mode : Mode) (row : Nat) : Nat → Reader Command
  | 0 => do return ⟨.shift (← Shift.all[row]?), none, [mode]⟩
  | quadrant + 1 => do
    return ⟨.bit (← BitAction.all[quadrant]?), none, [.immediate (.ofNat row), mode]⟩

/-- The bit group. With an index prefix, the offset stands in front of the opcode. -/
def bitGroup : Option Index → Reader Command
  | none => do
    let opcode ← next
    bitCommand (← place none (opcode % 8)) (opcode / 8 % 8) (opcode / 64)
  | some x => do
    let mode ← place (some x) 6
    let opcode ← next
    bitCommand mode (opcode / 8 % 8) (opcode / 64)

/-- Extended loads, arithmetic, ports and interrupts. -/
def extended (row : Nat) : Nat → Reader Command
  | 0 => do return ⟨.input, none, [.reg8 (← Reg8.ofCode? row), .indirect .c]⟩
  | 1 => do return ⟨.output, none, [.indirect .c, .reg8 (← Reg8.ofCode? row)]⟩
  | 2 =>
    let op := if row % 2 = 0 then Alu.sbc else .adc
    return ⟨.alu op, none, [.reg16 .hl, .reg16 (Pair.ofCode none .sp (row / 2))]⟩
  | 3 =>
    let pair := Pair.ofCode none .sp (row / 2)
    if row % 2 = 0 then do return ⟨.ld, none, [.absolute (← wordValue), .reg16 pair]⟩
    else do return ⟨.ld, none, [.reg16 pair, .absolute (← wordValue)]⟩
  | 4 => return ⟨.neg, none, []⟩
  | 5 => return ⟨if row = 0 then .retn else .reti, none, []⟩
  | 6 => return ⟨.im, none, [.immediate (.ofNat (row - 1))]⟩
  | _ =>
    match row with
    | 0 => return ⟨.ld, none, [.reg8 .i, .reg8 .a]⟩
    | 1 => return ⟨.ld, none, [.reg8 .r, .reg8 .a]⟩
    | 2 => return ⟨.ld, none, [.reg8 .a, .reg8 .i]⟩
    | 3 => return ⟨.ld, none, [.reg8 .a, .reg8 .r]⟩
    | 4 => return ⟨.rrd, none, []⟩
    | _ => return ⟨.rld, none, []⟩

/-- Block instructions. -/
def blocks (row : Nat) : Nat → Reader Command
  | 0 => do return ⟨.blockCopy (← Stride.all[row - 4]?), none, []⟩
  | 1 => do return ⟨.blockSearch (← Stride.all[row - 4]?), none, []⟩
  | 2 => do return ⟨.blockInput (← Stride.all[row - 4]?), none, []⟩
  | _ => do return ⟨.blockOutput (← Stride.all[row - 4]?), none, []⟩

/-- What an opcode says, with what stands behind it. -/
def command (address : Nat) (x? : Option Index) (opcode : Nat) : Reader Command :=
  if opcode = 0xCB then bitGroup x?
  else if opcode = 0xED then do
    let second ← next
    if second / 64 = 1 then extended (second / 8 % 8) (second % 8)
    else blocks (second / 8 % 8) (second % 8)
  else plain address x? (opcode / 8 % 8) (opcode % 8) (opcode / 64)

/-- What a first byte says, which may be an index prefix. -/
def afterFirst (address first : Nat) : Option Index → Reader Command
  | some x => do command address (some x) (← next)
  | none => command address none first

/-- Reads one instruction at an address. -/
def decode (address : Nat) : Reader Command := do
  let first ← next
  afterFirst address first (Index.ofOpcode? first)

end Reader

end Z80Workbench
