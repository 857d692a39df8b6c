import Z80Workbench.Proofs.Machine.Counter
import Z80Workbench.Proofs.Machine.WellFormed

/-!
# Z80Workbench.Proofs.Machine.Transfer

Control transfers as the machine makes them: calls, returns and jumps.  Each moves the stack
pointer by a fixed amount and sets the program counter; of the rest, a call pushes a word and has
the effect of a firmware routine if it leads to one.
-/

namespace Z80Workbench.Machine

variable {env : Env} {m : Machine}

/-! ## at a line -/

/-- The machine as it comes to a line: at the address of the line, if it has one. -/
def arriveAt (m : Machine) (address : Option Nat) : Machine := (address.map m.setPc).getD m

/-- Coming to a line changes the program counter at most. -/
theorem agrees_arriveAt (m : Machine) (address : Option Nat) :
    m.AgreesButPc (m.arriveAt address) := by
  cases address <;> rfl

theorem WellFormed.arriveAt (wf : m.WellFormed) (address : Option Nat) :
    (m.arriveAt address).WellFormed := by
  cases address with
  | none => exact wf
  | some address => exact wf.setPc address

@[simp] theorem sp_arriveAt (address : Option Nat) :
    (m.arriveAt address).registers.sp = m.registers.sp := by
  cases address <;> rfl

@[simp] theorem video_arriveAt (address : Option Nat) : (m.arriveAt address).video = m.video := by
  cases address <;> rfl

@[simp] theorem flags_arriveAt (address : Option Nat) : (m.arriveAt address).flags = m.flags := by
  cases address <;> rfl

@[simp] theorem memory_arriveAt (address : Option Nat) :
    (m.arriveAt address).memory = m.memory := by
  cases address <;> rfl

@[simp] theorem pair_arriveAt (address : Option Nat) (p : Pair) :
    (m.arriveAt address).pair p = m.pair p := by
  cases address with
  | none => rfl
  | some address => cases p <;> rfl

@[simp] theorem hl_arriveAt (address : Option Nat) :
    (m.arriveAt address).registers.hl = m.registers.hl :=
  (m.agrees_arriveAt address).hl.symm

@[simp] theorem index_arriveAt (address : Option Nat) (x : Index) :
    (m.arriveAt address).registers.index x = m.registers.index x :=
  ((m.agrees_arriveAt address).index x).symm

/-- A line with a mnemonic performs it once the machine has come there. -/
theorem runLine_of_mnemonic {line : SourceLine} {i : Instruction} {mnemonic : Mnemonic}
    (hl : line.instruction? = some i) (ho : i.operation = .mnemonic mnemonic) (m : Machine)
    (address : Option Nat) :
    m.runLine env line address =
      (m.arriveAt address).perform env mnemonic i.condition (i.operands.map (·.mode)) := by
  obtain ⟨operation, hop, rfl⟩ := Option.map_eq_some_iff.mp hl
  cases ho
  have executable : line.isExecutable = true := by
    rw [SourceLine.isExecutable, hop]
    rfl
  rw [runLine, executable, hl]
  rfl

/-! ## firmware routines -/

@[simp] theorem registers_callFirmware (address : Nat) :
    (m.callFirmware env address).registers = m.registers := by
  unfold callFirmware
  dsimp only
  split
  · rfl
  split
  · rfl
  split <;> rfl

/-- Only three routines have an effect. -/
theorem callFirmware_of_notMem {address : Nat} (h : address ∉ Firmware.videoRoutines) :
    m.callFirmware env address = m := by
  simp only [Firmware.videoRoutines, List.mem_cons, List.not_mem_nil, or_false, not_or] at h
  obtain ⟨notWrite, notFill, notCopy⟩ := h
  rw [callFirmware, if_neg notWrite, if_neg notFill, if_neg notCopy]

theorem registers_setPc (value : Nat) :
    (m.setPc value).registers = { m.registers with pc := value % 65536 } := rfl

/-! ## the stack pointer -/

@[simp] theorem sp_setPc (value : Nat) : (m.setPc value).registers.sp = m.registers.sp := rfl

@[simp] theorem sp_push (value : Nat) :
    (m.push value).registers.sp = (m.registers.sp + 65534) % 65536 := rfl

@[simp] theorem sp_popPc : (m.popPc env).registers.sp = (m.registers.sp + 2) % 65536 := rfl

/-- A call moves the stack pointer down by one word, whether or not its target has a value. -/
@[simp] theorem sp_call (length : Nat) (target : Option Mode) :
    (m.call env length target).registers.sp = (m.registers.sp + 65534) % 65536 := by
  unfold call
  dsimp only
  split
  · rw [registers_callFirmware, sp_setPc, sp_push]
  · rw [sp_push]

@[simp] theorem sp_jump (target : Option Mode) :
    (m.jump env target).registers.sp = m.registers.sp := by
  unfold jump
  split
  · rfl
  · rfl
  · split <;> rfl
  · rfl

/-! ## the program counter -/

@[simp] theorem pc_setPc (value : Nat) : (m.setPc value).registers.pc = value % 65536 := rfl

/-- The value that the machine finds for the operand of a transfer. -/
def calledAddress? (env : Env) (target : Option Mode) : Option Nat :=
  (target.bind Mode.expr?).bind env.value?

/-- A call goes to the value of its operand, whatever routine of the firmware is there. -/
theorem pc_call {target : Option Mode} {address : Nat}
    (h : calledAddress? env target = some address) (length : Nat) :
    (m.call env length target).registers.pc = address % 65536 := by
  have found : (target.bind Mode.expr?).bind env.value? = some address := h
  unfold call
  dsimp only
  rw [found]
  dsimp only
  rw [registers_callFirmware, pc_setPc]

/-! ## memory and the video chip -/

@[simp] theorem memory_setPc (value : Nat) : (m.setPc value).memory = m.memory := rfl

@[simp] theorem byteAt_setPc (value address : Nat) :
    (m.setPc value).byteAt env address = m.byteAt env address := by
  rw [byteAt, byteAt, memory_setPc]

theorem block_one (address : Nat) : m.block env address 1 = [m.byteAt env address] := rfl

@[simp] theorem memory_setSp (value : Nat) : (m.setSp value).memory = m.memory := rfl

@[simp] theorem memory_store (address value : Nat) :
    (m.store address value).memory = m.memory.set address value := rfl

/-- A push moves the stack pointer, and stores the two bytes of the word there. -/
theorem push_eq (value : Nat) : m.push value =
    ((m.setSp (m.registers.sp + 65534)).store ((m.registers.sp + 65534) % 65536)
      (lowByte value)).store ((m.registers.sp + 65534) % 65536 + 1) (highByte value) := rfl

/-- A push writes the two bytes below the stack pointer. -/
theorem memory_push (value : Nat) :
    (m.push value).memory = (m.memory.set ((m.registers.sp + 65534) % 65536)
      (lowByte value)).set ((m.registers.sp + 65534) % 65536 + 1) (highByte value) := by
  rw [push_eq, memory_store, memory_store, memory_setSp]

@[simp] theorem video_store (address value : Nat) : (m.store address value).video = m.video := rfl

@[simp] theorem video_setPc (value : Nat) : (m.setPc value).video = m.video := rfl

@[simp] theorem video_setSp (value : Nat) : (m.setSp value).video = m.video := rfl

@[simp] theorem video_push (value : Nat) : (m.push value).video = m.video := by
  rw [push_eq, video_store, video_store, video_setSp]

@[simp] theorem video_popPc : (m.popPc env).video = m.video := by
  simp only [popPc, drop, video_setPc, video_setSp]

/-- A call that leads to no routine of the firmware leaves the video chip alone. -/
theorem video_call {target : Option Mode}
    (h : ∀ address, calledAddress? env target = some address → address ∉ Firmware.videoRoutines)
    (length : Nat) :
    (m.call env length target).video = m.video := by
  unfold call
  dsimp only
  cases found : (target.bind Mode.expr?).bind env.value? with
  | none => exact video_push _
  | some address =>
      dsimp only
      rw [callFirmware_of_notMem (h address found), video_setPc, video_push]

end Z80Workbench.Machine
