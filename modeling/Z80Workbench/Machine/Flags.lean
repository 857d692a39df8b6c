import Z80Workbench.Isa.Condition
import Z80Workbench.Text.Upper

/-!
# Z80Workbench.Machine.Flags

The flags of the machine: zero, sign, carry, and parity or overflow. In the flag byte they are
bits 6, 7, 0 and 2; the other bits are not kept.
-/

namespace Z80Workbench

/-- The flags. -/
structure Flags where
  z : Bool := false
  s : Bool := false
  c : Bool := false
  pv : Bool := false
  deriving Repr, DecidableEq

namespace Flags

/-- The flag byte. -/
def toByte (f : Flags) : Nat :=
  f.s.toNat * 0x80 + f.z.toNat * 0x40 + f.pv.toNat * 0x04 + f.c.toNat

/-- The flags in a flag byte. -/
def ofByte (n : Nat) : Flags where
  z := n.testBit 6
  s := n.testBit 7
  c := n.testBit 0
  pv := n.testBit 2

/-- Whether a condition holds. -/
def holds (f : Flags) : Condition → Bool
  | .nz => !f.z
  | .z => f.z
  | .nc => !f.c
  | .c => f.c
  | .po => !f.pv
  | .pe => f.pv
  | .p => !f.s
  | .m => f.s

/-- Whether an optional condition holds; none always does. -/
def allow (f : Flags) (condition : Option Condition) : Bool :=
  condition.all f.holds

/-- Whether the condition of a name holds; a name that is no condition counts as none. -/
def check (f : Flags) (name : Option String) : Bool :=
  f.allow (name.bind fun s => Condition.ofName? (Text.upperString s))

/-- Packing and unpacking keeps the flags. -/
theorem ofByte_toByte (f : Flags) : ofByte f.toByte = f := by
  obtain ⟨z, s, c, pv⟩ := f
  cases z <;> cases s <;> cases c <;> cases pv <;> decide

theorem toByte_lt (f : Flags) : f.toByte < 256 := by
  obtain ⟨z, s, c, pv⟩ := f
  cases z <;> cases s <;> cases c <;> cases pv <;> decide

end Flags

end Z80Workbench
