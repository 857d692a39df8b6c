import Z80Workbench.Walk.Step

/-!
# Z80Workbench.Proofs.Machine.Counter

Machines that differ in their program counters at most.  A line with an address sets the program
counter before it does anything else, so that the difference is gone as soon as such a line is
executed.
-/

namespace Z80Workbench

namespace Machine

/-- The machines differ in their program counters at most. -/
def AgreesButPc (m n : Machine) : Prop := m.setPc 0 = n.setPc 0

theorem AgreesButPc.refl (m : Machine) : m.AgreesButPc m := rfl

theorem AgreesButPc.trans {l m n : Machine} (h : l.AgreesButPc m) (h' : m.AgreesButPc n) :
    l.AgreesButPc n :=
  Eq.trans h h'

/-- Setting the program counter loses its old value. -/
theorem setPc_setPc (m : Machine) (old new : Nat) : (m.setPc old).setPc new = m.setPc new := rfl

variable {m n : Machine}

theorem AgreesButPc.setPc (h : m.AgreesButPc n) (value : Nat) : m.setPc value = n.setPc value := by
  rw [← setPc_setPc m 0, ← setPc_setPc n 0, h]

theorem AgreesButPc.flags (h : m.AgreesButPc n) : m.flags = n.flags := by
  show (m.setPc 0).flags = (n.setPc 0).flags
  rw [h.setPc]

theorem AgreesButPc.b (h : m.AgreesButPc n) : m.registers.b = n.registers.b := by
  show (m.setPc 0).registers.b = (n.setPc 0).registers.b
  rw [h.setPc]

theorem AgreesButPc.hl (h : m.AgreesButPc n) : m.registers.hl = n.registers.hl := by
  show (m.setPc 0).registers.hl = (n.setPc 0).registers.hl
  rw [h.setPc]

theorem AgreesButPc.index (h : m.AgreesButPc n) (x : Index) :
    m.registers.index x = n.registers.index x := by
  have hs : ∀ m : Machine, (m.setPc 0).registers.index x = m.registers.index x := by
    intro m
    cases x <;> rfl
  rw [← hs m, ← hs n, h.setPc]

/-- Writing a register other than the program counter keeps the difference there. -/
theorem AgreesButPc.set8 (h : m.AgreesButPc n) (register : Reg8) (value : Nat) :
    (m.set8 register value).AgreesButPc (n.set8 register value) := by
  have hs : ∀ m : Machine, (m.set8 register value).setPc 0 = (m.setPc 0).set8 register value := by
    intro m
    cases register <;> rfl
  rw [AgreesButPc, hs, hs, h]

/-- At an address, an instruction does the same in both machines. -/
theorem AgreesButPc.executeAt (h : m.AgreesButPc n) (env : Env) (i : Instruction) (address : Nat) :
    m.executeAt env i (some address) = n.executeAt env i (some address) := by
  simp only [Machine.executeAt, Option.map_some, Option.getD_some, h.setPc]

end Machine

end Z80Workbench
