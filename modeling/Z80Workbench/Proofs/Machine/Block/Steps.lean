import Z80Workbench.Proofs.Machine.Transfer

/-!
# Z80Workbench.Proofs.Machine.Block.Steps

Block instructions step by step.  With every step the pointers move on by one byte, all downwards
or all upwards, and the counter goes down by one; all of them wrap.  So where a pointer is after
some steps can be told at once, by `onward`, and a pointer comes back to where it was only after
65536 steps.
-/

namespace Z80Workbench

/-! ## pointers -/

namespace Arithmetic

/-- How far a byte of a block lies from the one before it. -/
def direction (down : Bool) : Int := if down then -1 else 1

/-- The word that is some steps on from another, downwards or upwards. -/
def onward (down : Bool) (start steps : Nat) : Nat := word (start + direction down * steps)

variable {down : Bool} {start : Nat}

theorem onward_lt (steps : Nat) : onward down start steps < 65536 := word_lt _

theorem onward_zero (h : start < 65536) : onward down start 0 = start := by
  unfold onward word
  omega

theorem move_onward (steps : Nat) :
    move down (onward down start steps) = onward down start (steps + 1) := by
  unfold move onward word direction
  cases down <;> simp only [if_true, Bool.false_eq_true, if_false] <;> omega

/-- Steps that lead to one word are the same number, all round the address space apart. -/
theorem onward_inj {i j : Nat} (hi : i < 65536) (hj : j < 65536)
    (h : onward down start i = onward down start j) : i = j := by
  unfold onward word direction at h
  cases down <;> simp only [if_true, Bool.false_eq_true, if_false] at h <;> omega

/-- A counter that counts its steps down to zero. -/
theorem onward_self {count : Nat} (h : count % 65536 = start) : onward true start count = 0 := by
  unfold onward word direction
  simp only [if_true]
  omega

end Arithmetic

/-! ## pairs that are written -/

namespace Registers

variable (regs : Registers) (value : Nat)

theorem wordOf_bytes : wordOf (highByte value) (lowByte value) = value % 65536 := by
  unfold wordOf highByte lowByte
  omega

@[simp] theorem hl_setHl : (regs.setHl value).hl = value % 65536 := wordOf_bytes value

@[simp] theorem de_setDe : (regs.setDe value).de = value % 65536 := wordOf_bytes value

@[simp] theorem bc_setBc : (regs.setBc value).bc = value % 65536 := wordOf_bytes value

@[simp] theorem hl_setDe : (regs.setDe value).hl = regs.hl := rfl

@[simp] theorem hl_setBc : (regs.setBc value).hl = regs.hl := rfl

@[simp] theorem de_setHl : (regs.setHl value).de = regs.de := rfl

@[simp] theorem de_setBc : (regs.setBc value).de = regs.de := rfl

@[simp] theorem bc_setHl : (regs.setHl value).bc = regs.bc := rfl

@[simp] theorem bc_setDe : (regs.setDe value).bc = regs.bc := rfl

@[simp] theorem pc_setHl : (regs.setHl value).pc = regs.pc := rfl

@[simp] theorem pc_setDe : (regs.setDe value).pc = regs.pc := rfl

@[simp] theorem pc_setBc : (regs.setBc value).pc = regs.pc := rfl

/-- Pointers and counter that are written again lose what was written before. -/
theorem setPairs_again (hl de bc hl' de' bc' : Nat) :
    (((((regs.setHl hl).setDe de).setBc bc).setHl hl').setDe de').setBc bc' =
      ((regs.setHl hl').setDe de').setBc bc' := rfl

/-- The same with HL as the only pointer. -/
theorem setHl_setBc_again (hl bc hl' bc' : Nat) :
    (((regs.setHl hl).setBc bc).setHl hl').setBc bc' = (regs.setHl hl').setBc bc' := rfl

end Registers

namespace Registers.WellFormed

variable {regs : Registers} (wf : regs.WellFormed)
include wf

theorem setHl_hl : regs.setHl regs.hl = regs := by
  unfold Registers.setHl Registers.hl
  rw [highByte_wordOf wf.h wf.l, lowByte_wordOf wf.l]

theorem setDe_de : regs.setDe regs.de = regs := by
  unfold Registers.setDe Registers.de
  rw [highByte_wordOf wf.d wf.e, lowByte_wordOf wf.e]

theorem setBc_bc : regs.setBc regs.bc = regs := by
  unfold Registers.setBc Registers.bc
  rw [highByte_wordOf wf.b wf.c, lowByte_wordOf wf.c]

end Registers.WellFormed

/-! ## lines with block instructions -/

namespace Machine

variable {env : Env} {m : Machine}

@[simp] theorem byteAt_arriveAt (address : Option Nat) (other : Nat) :
    (m.arriveAt address).byteAt env other = m.byteAt env other := by
  cases address <;> rfl

/-- Coming to a line where it already is, the machine stays as it is. -/
theorem setPc_of_eq {address : Nat} (h : m.registers.pc = address % 65536) :
    m.setPc address = m := by
  rw [setPc, ← h]

theorem arriveAt_arriveAt (address : Option Nat) :
    (m.arriveAt address).arriveAt address = m.arriveAt address := by
  cases address <;> rfl

-- That a step leaves the rest of the machine alone is told by the three lemmas that follow: to find
-- it by `rfl`, the kernel would compare the pointers before and after the step as well.

theorem flags_withRegisters (registers : Registers) :
    ({ m with registers } : Machine).flags = m.flags := rfl

theorem video_withRegisters (registers : Registers) :
    ({ m with registers } : Machine).video = m.video := rfl

theorem memory_withRegisters (registers : Registers) :
    ({ m with registers } : Machine).memory = m.memory := rfl

/-- What is found at an address depends on nothing but memory. -/
theorem byteAt_congr {n : Machine} (h : m.memory = n.memory) (address : Nat) :
    m.byteAt env address = n.byteAt env address := by
  rw [byteAt, byteAt, h]

/-- What is found where a byte has been stored, and elsewhere. -/
theorem byteAt_store_other (address value other : Nat) :
    (m.store address value).byteAt env other =
      if address % 65536 = other % 65536 then value % 256 else m.byteAt env other := by
  rw [byteAt, memory_store, Memory.get?_set]
  split <;> rfl

/-- What the bytes of each block instruction do to the registers. -/
theorem registers_copyByte (down : Bool) : (m.copyByte env down).registers =
    ((m.registers.setHl (Arithmetic.move down m.registers.hl)).setDe
      (Arithmetic.move down m.registers.de)).setBc (Arithmetic.move true m.registers.bc) := rfl

theorem registers_searchByte (down : Bool) : (m.searchByte env down).registers =
    (m.registers.setHl (Arithmetic.move down m.registers.hl)).setBc
      (Arithmetic.move true m.registers.bc) := rfl

theorem registers_countB (down : Bool) : (m.countB down).registers =
    { m.registers.setHl (Arithmetic.move down m.registers.hl) with
      b := Arithmetic.decrement m.registers.b } := rfl

theorem registers_sendByte (down : Bool) :
    (m.sendByte env down).registers = (m.countB down).registers := rfl

theorem registers_receiveByte (down : Bool) :
    (m.receiveByte down).registers = (m.countB down).registers := by
  unfold receiveByte
  cases m.video.input? m.registers.c <;> rfl

/-- A line does what its mnemonic stands for if that does not look at any operand. -/
theorem runLine_of_operandless {line : SourceLine} {mnemonic : Mnemonic}
    (ho : line.operation = some (.mnemonic mnemonic)) {f : Machine → Machine}
    (plain : ∀ (m : Machine) condition modes,
      m.perform env mnemonic condition modes = .ok (f m))
    (m : Machine) (address : Option Nat) :
    m.runLine env line address = .ok (f (m.arriveAt address)) := by
  have hl : line.instruction? = some (.ofArgs (.mnemonic mnemonic) line.args.toList) := by
    rw [SourceLine.instruction?, ho, Option.map_some]
  rw [runLine_of_mnemonic hl rfl, plain]

/-- How often a block instruction that repeats does so: as its counter says, where zero stands for
the whole range. -/
def blockLength (counter range : Nat) : Nat := if counter = 0 then range else counter

theorem runs_single (down : Bool) (counter range : Nat) :
    runs ⟨down, false⟩ counter range = 1 := rfl

@[simp] theorem video_flagBc : m.flagBc.video = m.video := rfl

@[simp] theorem video_flagB : m.flagB.video = m.video := rfl

@[simp] theorem byteAt_flagBc (address : Nat) :
    m.flagBc.byteAt env address = m.byteAt env address := byteAt_congr rfl address

theorem flags_flagBc : m.flagBc.flags = { m.flags with pv := m.registers.bc ≠ 0 } := rfl

variable {counter range : Nat}

theorem blockLength_pos (h : 0 < range) : 0 < blockLength counter range := by
  unfold blockLength
  split <;> omega

theorem blockLength_le (h : counter < range) : blockLength counter range ≤ range := by
  unfold blockLength
  split <;> omega

theorem blockLength_mod (h : counter < range) : blockLength counter range % range = counter := by
  unfold blockLength
  split
  case isTrue zero => rw [zero, Nat.mod_self]
  case isFalse => exact Nat.mod_eq_of_lt h

/-- The last of some steps. -/
theorem iterate_succ (step : Machine → Machine) (n : Nat) (m : Machine) :
    iterate step (n + 1) m = step (iterate step n m) := by
  induction n generalizing m with
  | zero => rfl
  | succ n ih => exact ih (step m)

end Machine

end Z80Workbench
