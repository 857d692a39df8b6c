import Z80Workbench.Expr.Scope
import Z80Workbench.Machine.Flags
import Z80Workbench.Machine.Registers
import Z80Workbench.Machine.Video
import Z80Workbench.Memory
import Z80Workbench.Settings

/-!
# Z80Workbench.Machine.Basic

The state of the machine, and reading and writing it. Memory is what the running program has
written over a static image that it never changes; a byte that neither holds is zero.
-/

namespace Z80Workbench

/-- The state of the machine. `memory` holds what has been written at run time. -/
structure Machine where
  registers : Registers
  flags : Flags
  memory : Memory
  video : Video

namespace Machine

/-- What a program runs in: the meaning of names, and the static image. -/
structure Env where
  scope : Expr.Scope
  image : Memory

/-- A fresh machine. -/
def initial (settings : Settings) : Machine where
  registers := { sp := settings.stackTop % 65536 }
  flags := {}
  memory := ∅
  video := .initial

/-! ## Registers -/

/-- Accumulator and flags as a word. -/
def af (m : Machine) : Nat := wordOf m.registers.a m.flags.toByte

/-- Writes accumulator and flags. -/
def setAf (m : Machine) (value : Nat) : Machine :=
  { m with
    registers := { m.registers with a := highByte value }
    flags := .ofByte (lowByte value) }

/-- The value of a pair. -/
def pair (m : Machine) (p : Pair) : Nat := (m.registers.pair? p).getD m.af

/-- Writes a pair; the shadow of accumulator and flags cannot be written. -/
def setPair (m : Machine) (p : Pair) (value : Nat) : Except UnknownRegister Machine :=
  if p = .af then .ok (m.setAf value)
  else
    match m.registers.setPair? p value with
    | some registers => .ok { m with registers }
    | none => .error ⟨p.name⟩

/-- Writes an eight-bit register. -/
def set8 (m : Machine) (register : Reg8) (value : Nat) : Machine :=
  { m with registers := m.registers.set8 register value }

/-- Writes HL. -/
def setHl (m : Machine) (value : Nat) : Machine := { m with registers := m.registers.setHl value }

/-- Writes the accumulator. -/
def setA (m : Machine) (value : Nat) : Machine := m.set8 .a value

/-- Writes the program counter. -/
def setPc (m : Machine) (value : Nat) : Machine :=
  { m with registers := { m.registers with pc := value % 65536 } }

/-- Reads a register or pair by its name in any letter case. -/
def readRegister (m : Machine) (name : String) : Except UnknownRegister Nat :=
  if Text.upperString name = "AF" then .ok m.af else m.registers.read name

/-- Writes a register or pair by its name in any letter case. -/
def writeRegister (m : Machine) (name : String) (value : Int) :
    Except UnknownRegister Machine :=
  if Text.upperString name = "AF" then .ok (m.setAf (word value))
  else (m.registers.write name value).map fun registers => { m with registers }

/-! ## Memory -/

/-- The byte at an address. -/
def byteAt (env : Env) (m : Machine) (address : Nat) : Nat :=
  ((m.memory.get? address).or (env.image.get? address)).getD 0

/-- The word at an address. -/
def wordAt (env : Env) (m : Machine) (address : Nat) : Nat :=
  wordOf (m.byteAt env (address + 1)) (m.byteAt env address)

/-- Stores a byte. -/
def store (m : Machine) (address value : Nat) : Machine :=
  { m with memory := m.memory.set address value }

/-- Stores a word. -/
def storeWord (m : Machine) (address value : Nat) : Machine :=
  (m.store address (lowByte value)).store (address + 1) (highByte value)

/-! ## The stack -/

/-- Moves the stack pointer. -/
def setSp (m : Machine) (value : Nat) : Machine :=
  { m with registers := { m.registers with sp := value % 65536 } }

/-- Pushes a word. -/
def push (m : Machine) (value : Nat) : Machine :=
  let lower := m.setSp (m.registers.sp + 65534)
  lower.storeWord lower.registers.sp value

/-- The word on top of the stack. -/
def top (env : Env) (m : Machine) : Nat := m.wordAt env m.registers.sp

/-- Drops the word on top of the stack. -/
def drop (m : Machine) : Machine := m.setSp (m.registers.sp + 2)

/-- Pops a word into the program counter. -/
def popPc (env : Env) (m : Machine) : Machine := m.drop.setPc (m.top env)

end Machine

end Z80Workbench
