import Z80Workbench.Isa.Register
import Z80Workbench.Text.Upper
import Z80Workbench.Word

/-!
# Z80Workbench.Machine.Registers

The register file, and access to it by register and by name. Values are cut to the width of
their register when they are written; register R keeps seven bits. The shadow registers and the
pair of accumulator and flags are no part of what can be written by name.
-/

namespace Z80Workbench

/-- A bank of shadow registers. -/
structure ShadowBank where
  a : Nat := 0
  f : Nat := 0
  b : Nat := 0
  c : Nat := 0
  d : Nat := 0
  e : Nat := 0
  h : Nat := 0
  l : Nat := 0
  deriving Repr, DecidableEq

/-- The register file without the flags. -/
structure Registers where
  a : Nat := 0
  b : Nat := 0
  c : Nat := 0
  d : Nat := 0
  e : Nat := 0
  h : Nat := 0
  l : Nat := 0
  i : Nat := 0
  r : Nat := 0
  ix : Nat := 0
  iy : Nat := 0
  sp : Nat := 0xF380
  pc : Nat := 0
  shadow : ShadowBank := {}
  deriving Repr, DecidableEq

/-- A register of the shadow bank. -/
inductive ShadowByte where
  | a | f | b | c | d | e | h | l
  deriving Repr, DecidableEq

/-- A pair of the shadow bank other than that of accumulator and flags. -/
inductive ShadowPair where
  | bc | de | hl
  deriving Repr, DecidableEq

/-- Everything in the machine that has a register name. -/
inductive RegisterName where
  | byte (register : Reg8)
  | pair (p : Pair)
  | pc
  | shadowByte (register : ShadowByte)
  | shadowPair (p : ShadowPair)
  deriving Repr, DecidableEq

/-- A name that no register has, or none that can be used this way. -/
structure UnknownRegister where
  name : String
  deriving Repr, DecidableEq

namespace RegisterName

/-- All register names. -/
def all : List RegisterName :=
  Reg8.all.map byte ++ Pair.all.map pair ++ [pc] ++
    [.a, .f, .b, .c, .d, .e, .h, .l].map shadowByte ++ [.bc, .de, .hl].map shadowPair

/-- The spelling of a register name. -/
def name : RegisterName → String
  | byte register => register.name
  | pair p => p.name
  | pc => "PC"
  | shadowByte .a => "A'" | shadowByte .f => "F'" | shadowByte .b => "B'" | shadowByte .c => "C'"
  | shadowByte .d => "D'" | shadowByte .e => "E'" | shadowByte .h => "H'" | shadowByte .l => "L'"
  | shadowPair .bc => "BC'" | shadowPair .de => "DE'" | shadowPair .hl => "HL'"

/-- The register of a name in capital letters. -/
def ofName? (s : String) : Option RegisterName := all.find? (·.name == s)

end RegisterName

namespace ShadowBank

/-- The value of a shadow register. -/
def get (bank : ShadowBank) : ShadowByte → Nat
  | .a => bank.a | .f => bank.f | .b => bank.b | .c => bank.c
  | .d => bank.d | .e => bank.e | .h => bank.h | .l => bank.l

/-- Writes a shadow register. -/
def set (bank : ShadowBank) (register : ShadowByte) (value : Nat) : ShadowBank :=
  match register with
  | .a => { bank with a := value % 256 }
  | .f => { bank with f := value % 256 }
  | .b => { bank with b := value % 256 }
  | .c => { bank with c := value % 256 }
  | .d => { bank with d := value % 256 }
  | .e => { bank with e := value % 256 }
  | .h => { bank with h := value % 256 }
  | .l => { bank with l := value % 256 }

/-- The value of a shadow pair. -/
def pair (bank : ShadowBank) : ShadowPair → Nat
  | .bc => wordOf bank.b bank.c
  | .de => wordOf bank.d bank.e
  | .hl => wordOf bank.h bank.l

/-- The shadow of accumulator and flags. -/
def af (bank : ShadowBank) : Nat := wordOf bank.a bank.f

end ShadowBank

namespace Registers

/-- The value of an eight-bit register. -/
def get8 (regs : Registers) : Reg8 → Nat
  | .a => regs.a | .b => regs.b | .c => regs.c | .d => regs.d | .e => regs.e
  | .h => regs.h | .l => regs.l | .i => regs.i | .r => regs.r

/-- Writes an eight-bit register. -/
def set8 (regs : Registers) (register : Reg8) (value : Nat) : Registers :=
  match register with
  | .a => { regs with a := value % 256 }
  | .b => { regs with b := value % 256 }
  | .c => { regs with c := value % 256 }
  | .d => { regs with d := value % 256 }
  | .e => { regs with e := value % 256 }
  | .h => { regs with h := value % 256 }
  | .l => { regs with l := value % 256 }
  | .i => { regs with i := value % 256 }
  | .r => { regs with r := value % 128 }

/-- The pair BC. -/
def bc (regs : Registers) : Nat := wordOf regs.b regs.c

/-- The pair DE. -/
def de (regs : Registers) : Nat := wordOf regs.d regs.e

/-- The pair HL. -/
def hl (regs : Registers) : Nat := wordOf regs.h regs.l

/-- Writes BC. -/
def setBc (regs : Registers) (value : Nat) : Registers :=
  { regs with b := highByte value, c := lowByte value }

/-- Writes DE. -/
def setDe (regs : Registers) (value : Nat) : Registers :=
  { regs with d := highByte value, e := lowByte value }

/-- Writes HL. -/
def setHl (regs : Registers) (value : Nat) : Registers :=
  { regs with h := highByte value, l := lowByte value }

/-- The value of an index register. -/
def index (regs : Registers) : Index → Nat
  | .ix => regs.ix
  | .iy => regs.iy

/-- Writes an index register. -/
def setIndex (regs : Registers) (x : Index) (value : Nat) : Registers :=
  match x with
  | .ix => { regs with ix := value % 65536 }
  | .iy => { regs with iy := value % 65536 }

/-- The value of a pair; accumulator and flags are not in the register file. -/
def pair? (regs : Registers) : Pair → Option Nat
  | .bc => some regs.bc
  | .de => some regs.de
  | .hl => some regs.hl
  | .sp => some regs.sp
  | .index x => some (regs.index x)
  | .afShadow => some regs.shadow.af
  | .af => none

/-- Writes a pair that can be written. -/
def setPair? (regs : Registers) (p : Pair) (value : Nat) : Option Registers :=
  match p with
  | .bc => some (regs.setBc value)
  | .de => some (regs.setDe value)
  | .hl => some (regs.setHl value)
  | .sp => some { regs with sp := value % 65536 }
  | .index x => some (regs.setIndex x value)
  | .af | .afShadow => none

/-- The value of a register. -/
def get? (regs : Registers) : RegisterName → Option Nat
  | .byte register => some (regs.get8 register)
  | .pair p => regs.pair? p
  | .pc => some regs.pc
  | .shadowByte register => some (regs.shadow.get register)
  | .shadowPair p => some (regs.shadow.pair p)

/-- Writes a register that can be written. -/
def set? (regs : Registers) (register : RegisterName) (value : Nat) : Option Registers :=
  match register with
  | .byte register => some (regs.set8 register value)
  | .pair p => regs.setPair? p value
  | .pc => some { regs with pc := value % 65536 }
  | .shadowByte _ | .shadowPair _ => none

/-- Reads a register by its name in any letter case. -/
def read (regs : Registers) (name : String) : Except UnknownRegister Nat :=
  let capital := Text.upperString name
  match (RegisterName.ofName? capital).bind regs.get? with
  | some value => .ok value
  | none => .error ⟨capital⟩

/-- Writes a register by its name in any letter case. -/
def write (regs : Registers) (name : String) (value : Int) : Except UnknownRegister Registers :=
  let capital := Text.upperString name
  match (RegisterName.ofName? capital).bind fun r => regs.set? r (word value) with
  | some written => .ok written
  | none => .error ⟨capital⟩

end Registers

end Z80Workbench
