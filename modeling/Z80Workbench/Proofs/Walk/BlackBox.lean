import Z80Workbench.Proofs.Machine.FlagEffect
import Z80Workbench.Proofs.Walk.CallEffect

/-!
# Z80Workbench.Proofs.Walk.BlackBox

Calls that are done at once.  Where the walk finds no line for a call, because it leads into the
firmware, nowhere, or to an address without a line, the machine pushes the address to return to and
pops it again.  Nothing else is left of the call but these two bytes, and what a routine of the
firmware writes to video memory.  Which routine that is the machine tells by the value of the
operand; the walk has looked at a register, if the operand is one, and at capital letters.
-/

namespace Z80Workbench

open Text

namespace Machine

variable {env : Env} {m n : Machine}

/-- What a call that has returned leaves behind: the machine is at the address to return to, which
still lies below the stack pointer, and registers, flags and memory are as they were otherwise. -/
structure Returned (m n : Machine) (back : Nat) : Prop where
  registers : n.registers = { m.registers with pc := back }
  flags : n.flags = m.flags
  held : n.memory.Holds (below m.registers.sp 2) [back]
  outside : ∀ other, ¬IsBelow m.registers.sp 2 other → n.memory.get? other = m.memory.get? other

/-! ## call and return -/

@[simp] theorem memory_callFirmware (address : Nat) :
    (m.callFirmware env address).memory = m.memory := by
  unfold callFirmware
  dsimp only
  split
  · rfl
  split
  · rfl
  split <;> rfl

theorem memory_call (length : Nat) (target : Option Mode) :
    (m.call env length target).memory =
      (m.push ((m.registers.pc + length) % 65536)).memory := by
  unfold call
  dsimp only
  split
  · rw [memory_callFirmware, memory_setPc]
  · rfl

theorem exists_registers_call (length : Nat) (target : Option Mode) :
    ∃ pc, (m.call env length target).registers =
      { m.registers with pc, sp := (m.registers.sp + 65534) % 65536 } := by
  unfold call
  dsimp only
  split
  · rw [registers_callFirmware, registers_setPc, registers_push]
    exact ⟨_, rfl⟩
  · rw [registers_push]
    exact ⟨_, rfl⟩

theorem flags_popPc : (m.popPc env).flags = m.flags := rfl

theorem memory_popPc : (m.popPc env).memory = m.memory := rfl

theorem registers_popPc : (m.popPc env).registers =
    { m.registers with sp := (m.registers.sp + 2) % 65536, pc := m.top env % 65536 } := rfl

/-- A machine that returns at once from a call pops the word that it has just pushed. -/
theorem returned_call (small : m.registers.sp < 65536) (length : Nat) (target : Option Mode) :
    Returned m ((m.call env length target).popPc env) ((m.registers.pc + length) % 65536) := by
  have pushed := (Stacked.start small).push (by decide) ((m.registers.pc + length) % 65536)
  obtain ⟨pc, registers⟩ := @exists_registers_call env m length target
  have flags := @flags_call env m length target
  have memory := @memory_call env m length target
  generalize m.call env length target = called at registers flags memory
  generalize hb : (m.registers.pc + length) % 65536 = back at pushed memory
  have sp : called.registers.sp = (m.push back).registers.sp := by
    rw [registers, registers_push]
  have held : called.memory.Holds called.registers.sp [back] := by
    rw [memory, sp]
    exact pushed.held
  have top : called.top env = back := top_of_holds held (by omega)
  refine ⟨?registers, ?flags, ?held, ?outside⟩
  case registers =>
      have up : ((m.registers.sp + 65534) % 65536 + 2) % 65536 = m.registers.sp := by omega
      have whole : back % 65536 = back := by omega
      rw [registers_popPc, top, registers, whole]
      dsimp only
      rw [up]
  case flags => rw [flags_popPc, flags]
  case held =>
      have place : below m.registers.sp 2 = (m.push back).registers.sp := pushed.sp.symm
      rw [memory_popPc, memory, place]
      exact pushed.held
  case outside =>
      rw [memory_popPc, memory]
      exact pushed.outside

end Machine

namespace Program

variable {p : Program} {tailCalls : Bool} {number : Nat} {line : CodeLine} {m : Machine}

/-! ## one call -/

/-- A call that is taken and finds no line steps over itself. -/
theorem step_of_blackBoxed (call : line.transfer? = some .call)
    (taken : m.flags.allow line.instruction.condition = true)
    (closed : (p.destination m (targetMode? line)).line = none) (returns : List Nat) :
    p.step tailCalls number line m returns = .ok (.goto
      (((m.arriveAt line.address).call p.env line.callLength (targetMode? line)).popPc p.env)
        returns (number + 1)) := by
  rw [step_of_call call, stepCall, if_pos taken, executeLine_callLength call taken]
  show Except.ok _ = _
  rw [closed]

/-- Coming to its line, the machine has only set the program counter, which the call sets again. -/
theorem returned_of_arriveAt {n : Machine} {address length : Nat}
    (h : Machine.Returned (m.arriveAt (some address)) n
      (((m.arriveAt (some address)).registers.pc + length) % 65536)) :
    Machine.Returned m n ((address + length) % 65536) := by
  have back : ((m.arriveAt (some address)).registers.pc + length) % 65536 =
      (address + length) % 65536 := Nat.mod_add_mod address 65536 length
  rw [back] at h
  refine ⟨h.registers, h.flags.trans (Machine.flags_arriveAt _), ?held, ?outside⟩
  case held => simpa only [Machine.sp_arriveAt] using h.held
  case outside =>
      simpa only [Machine.sp_arriveAt, Machine.memory_arriveAt] using h.outside

/-- Where the walk finds no line for an expression that upper case does not change, it has read the
value that the machine finds. -/
theorem address_of_blackBoxed {settings other : Settings} {source file : String}
    (hp : p = ofAnalysis settings (Analysis.ofSource other source file))
    (hl : p.line? number = some line) (closed : (p.destination m (targetMode? line)).line = none)
    (register : (targetMode? line).any Mode.isRegister = false)
    (letters : ∀ e, (targetMode? line).bind Mode.address? = some e →
      ¬ Expr.HoldsLower e.text.toList) {address : Nat}
    (found : p.calledAddress? line = some address) :
    (p.destination m (targetMode? line)).address = some (address : Int) := by
  unfold calledAddress? at found
  cases hm : targetMode? line with
  | none =>
      rw [hm] at found
      cases found
  | some mode =>
      rw [hm] at closed register letters found
      obtain ⟨operand, ho, he⟩ := Option.map_eq_some_iff.mp hm
      obtain ⟨text, rfl⟩ : ∃ text, operand = Operand.parse text := by
        subst hp
        exact exists_of_target hl ho
      have read : mode = Operand.modeOf (trim text) := he.symm
      cases ha : mode.address? with
      | some e =>
          obtain ⟨x, trimmed, rfl⟩ := Operand.exists_of_address (trim_trim text) (read ▸ ha)
          have letters := letters (Expr.read x) ha
          rw [show (Expr.read x).text.toList = x from String.toList_ofList] at letters
          rw [calledAddress?_of_address ha] at found
          rw [destination_of_address ha] at closed ⊢
          have unlabelled : p.labels.get? (String.ofList (upper x)) = none := by
            cases hl : p.labels.get? (String.ofList (upper x)) with
            | none => rfl
            | some target =>
                rw [atExpression, upperString_text trimmed, hl] at closed
                cases closed
          rw [atExpression_of_unlabelled trimmed unlabelled letters, found]
          dsimp only
          split <;> rfl
      | none =>
          cases mode with
          | indexed x offset => cases register
          | immediate | absolute => cases ha
          | reg8 | reg16 | indirect => cases found

/-- A call at the end of the address space that leads nowhere. -/
def strayCall : Program :=
  ofAnalysis {} (Analysis.ofSource {} "      ORG $FFFE\nMAIN: CALL NOWHERE\n      RET" "")

/-- Its line. -/
def strayLine : CodeLine :=
  ⟨⟨.mnemonic .call, none, [⟨"NOWHERE", .immediate (Expr.ofString "NOWHERE")⟩], "NOWHERE"⟩,
    some 0xFFFE⟩

/-- A call through an index register, with the address of a routine that writes video memory for its
offset. -/
def indexedCall : Program :=
  ofAnalysis {} (Analysis.ofSource {} "      ORG $4000\nMAIN: CALL (IX+$4D)\n      RET" "")

/-- Its line. -/
def indexedLine : CodeLine :=
  ⟨⟨.mnemonic .call, none, [⟨"(IX+$4D)", .indexed .ix (some (Expr.ofString "+$4D"))⟩], "(IX+$4D)"⟩,
    some 0x4000⟩

end Program

end Z80Workbench
