import Z80Workbench.Proofs.Code.Failure
import Z80Workbench.Proofs.Machine.Transfer

/-!
# Z80Workbench.Proofs.Machine.NoValue

Operands without a value.  An instruction that cannot be encoded because an expression in it has
no value does nothing either, at whichever operand the expression stands.  Only what happens before
the operand is looked at is left behind: `DJNZ` has counted B down, and a call or restart has pushed
its return address.
-/

namespace Z80Workbench

open Machine (Env)

variable {ctx : Context} {c : Cause}

/-- The expression of a field has the property of the expressions in the form. -/
theorem Field.Holds.of_expr {P : Expr → Prop} {field : Field} (h : field.Holds P) {e : Expr}
    (he : field.expr? = some e) : P e := by
  cases field with
  | opcode n => cases he
  | bit base e' => cases he; exact h.2
  | byte e' | word e' | offset e' | relative e' | restart e' | interruptMode e' => cases he; exact h

/-! ## operands without a value -/

/-- The operand has an expression without a value. -/
def Mode.Lacks (env : Env) (mode : Mode) : Prop :=
  ∃ e, mode.expr? = some e ∧ env.value? e = none

/-- A pair has its value without any expression. -/
theorem Mode.Lacks.plain {env : Env} {mode : Mode} (h : mode.Lacks env) (p : Pair) :
    mode ≠ .reg16 p := by
  rintro rfl
  obtain ⟨e, he, -⟩ := h
  cases he

namespace Machine

variable {env : Env} {m : Machine} {mode target source : Mode}

theorem addressOf?_of_lacks (h : mode.Lacks env) : m.addressOf? env mode = none := by
  obtain ⟨e, he, hv⟩ := h
  cases mode with
  | reg8 | reg16 | indirect => cases he
  | immediate e' => rfl
  | absolute e' => cases he; exact hv
  | indexed x offset => cases he; simp [addressOf?, hv]

theorem byteOf?_of_lacks (h : mode.Lacks env) : m.byteOf? env mode = none := by
  have far := m.addressOf?_of_lacks h
  obtain ⟨e, he, hv⟩ := h
  cases mode with
  | reg8 | reg16 | indirect => cases he
  | immediate e' => cases he; simp [byteOf?, hv]
  | absolute | indexed => simp [byteOf?, far]

theorem wordOf?_of_lacks (h : mode.Lacks env) : m.wordOf? env mode = none := by
  obtain ⟨e, he, hv⟩ := h
  cases mode with
  | reg8 | reg16 | indirect => cases he
  | immediate e' => cases he; exact hv
  | absolute e' => cases he; simp [wordOf?, hv]
  | indexed => rfl

theorem portOf?_of_lacks (h : mode.Lacks env) : m.portOf? env mode = none := by
  obtain ⟨e, he, hv⟩ := h
  cases mode with
  | reg8 | reg16 | indirect => cases he
  | immediate e' | absolute e' => cases he; exact hv
  | indexed => rfl

/-! ## nothing is done -/

theorem load_reg8_of_none {register : Reg8} (h : m.byteOf? env source = none) :
    m.load env (.reg8 register) source = m := by
  unfold load
  split
  case h_1 | h_2 => cases h
  case h_3 => rw [h]
  case h_4 hp | h_5 hp => cases hp
  case h_6 other _ _ _ _ => exact (other register rfl).elim

theorem load_reg16_of_none {p : Pair} (h : m.wordOf? env source = none) :
    m.load env (.reg16 p) source = m := by
  simp only [load, h]

/-- Nothing is stored without an address. -/
theorem loadMemory_of_noAddress (h : m.addressOf? env target = none) :
    m.loadMemory env target source = m := by
  simp only [loadMemory, h]

/-- Nothing is stored if the source is neither a pair nor a byte. -/
theorem loadMemory_of_noByte (h : m.byteOf? env source = none)
    (plain : ∀ p, source ≠ .reg16 p) : m.loadMemory env target source = m := by
  unfold loadMemory
  split
  case h_1 p _ => exact absurd rfl (plain p)
  case h_2 => rw [h]
  case h_3 => rfl

theorem accumulate_of_none (op : Alu) (h : m.byteOf? env source = none) :
    m.accumulate env op source = m := by
  rw [accumulate, h]

/-- With one operand, the accumulator is operated on. -/
theorem arithmetic_one (op : Alu) :
    m.arithmetic env op [source] = m.accumulate env op source := by
  cases source <;> rfl

theorem count_of_none (down : Bool) (h : m.byteOf? env mode = none)
    (plain : ∀ p, mode ≠ .reg16 p) : m.count env down mode = m := by
  unfold count
  split
  case h_1 p => exact absurd rfl (plain p)
  case h_2 => rfl
  case h_3 => rw [h]

theorem shift_of_none (op : Shift) (h : m.byteOf? env mode = none) : m.shift env op mode = m := by
  unfold shift
  split
  case h_1 => rfl
  case h_2 => rw [h]

/-- Nothing is done to a bit without its number. -/
theorem changeBit_of_noNumber (action : BitAction) {number : Mode}
    (h : number.expr?.bind env.value? = none) : m.changeBit env action number mode = m := by
  rw [changeBit, h]

/-- Nothing is done to a bit of no byte. -/
theorem changeBit_of_none (action : BitAction) {number : Mode} (h : m.byteOf? env mode = none) :
    m.changeBit env action number mode = m := by
  rw [changeBit, h]
  cases number.expr?.bind env.value? <;> rfl

theorem input_of_none {port : Mode} (h : (m.portOf? env port).bind m.video.input? = none) :
    m.input env target port = m := by
  unfold input
  rw [h]
  cases target <;> rfl

theorem input_of_noPort {port : Mode} (h : m.portOf? env port = none) :
    m.input env target port = m :=
  input_of_none (by rw [h, Option.bind_none])

theorem output_of_noPort {port : Mode} (h : m.portOf? env port = none) :
    m.output env port source = m := by
  rw [output, h]

theorem count_of_lacks (down : Bool) (h : mode.Lacks env) : m.count env down mode = m :=
  count_of_none down (byteOf?_of_lacks h) h.plain

/-- A load without the address of its destination does nothing. -/
theorem load_of_lacks_target (h : target.Lacks env) : m.load env target source = m := by
  have far := m.addressOf?_of_lacks h
  obtain ⟨e, he, -⟩ := h
  cases target with
  | reg8 | reg16 | indirect => cases he
  | immediate e' => rfl
  | absolute | indexed => exact loadMemory_of_noAddress far

/-- A load without the value of its source does nothing. -/
theorem load_of_lacks_source (h : source.Lacks env) : m.load env target source = m := by
  cases target with
  | reg8 => exact load_reg8_of_none (byteOf?_of_lacks h)
  | reg16 => exact load_reg16_of_none (wordOf?_of_lacks h)
  | immediate => rfl
  | indirect | indexed | absolute => exact loadMemory_of_noByte (byteOf?_of_lacks h) h.plain

/-- A jump to an expression without a value does nothing.  One to an index register does not look
at the offset. -/
theorem jump_of_lacks (h : mode.Lacks env) (plain : ∀ x offset, mode ≠ .indexed x offset)
    (condition : Option Condition) :
    (if m.flags.allow condition then m.jump env (some mode) else m) = m := by
  refine ite_eq_right_iff.mpr fun _ => ?_
  obtain ⟨e, he, hv⟩ := h
  cases mode with
  | reg8 | reg16 | indirect => cases he
  | immediate e' | absolute e' => cases he; simp [jump, Mode.expr?, hv]
  | indexed x offset => exact absurd rfl (plain x offset)

/-- The machine once it has pushed the address of what follows a call of `length` bytes: the stack
pointer is two lower, and the two bytes there are those of the address. -/
def withReturn (m : Machine) (length : Nat) : Machine :=
  let sp := (m.registers.sp + 65534) % 65536
  let back := (m.registers.pc + length) % 65536
  { m with
    registers := { m.registers with sp }
    memory := (m.memory.set sp (lowByte back)).set (sp + 1) (highByte back) }

/-- A word that is stored where the stack pointer is moved to. -/
theorem storeWord_setSp (sp value : Nat) : (m.setSp sp).storeWord (sp % 65536) value =
    { m with
      registers := { m.registers with sp := sp % 65536 }
      memory := (m.memory.set (sp % 65536) (lowByte value)).set (sp % 65536 + 1)
        (highByte value) } := rfl

theorem push_eq_withReturn (length : Nat) :
    m.push ((m.registers.pc + length) % 65536) = m.withReturn length := by
  have pushed (value : Nat) : m.push value = (m.setSp (m.registers.sp + 65534)).storeWord
      ((m.registers.sp + 65534) % 65536) value := rfl
  rw [pushed, storeWord_setSp, withReturn]

/-- A call of an expression without a value still pushes its return address. -/
theorem call_of_lacks (length : Nat) (h : mode.Lacks env) :
    m.call env length (some mode) = m.withReturn length := by
  obtain ⟨e, he, hv⟩ := h
  rw [call, Option.bind_some, he, Option.bind_some, hv, push_eq_withReturn]

/-- `DJNZ` counts B down, whatever its target is. -/
theorem set8_decrement (m : Machine) :
    m.set8 .b (Arithmetic.decrement m.registers.b) =
      { m with registers := { m.registers with b := (m.registers.b + 255) % 256 } } := by
  simp [set8, Registers.set8, Arithmetic.decrement]

end Machine

/-! ## all instructions -/

/-- What an instruction does before it looks at an operand: `DJNZ` counts B down, and a call or
restart pushes its return address if its condition holds. -/
def Mnemonic.leftover (mnemonic : Mnemonic) (condition : Option Condition) (m : Machine) :
    Machine :=
  match mnemonic with
  | .djnz => { m with registers := { m.registers with b := (m.registers.b + 255) % 256 } }
  | .call => if m.flags.allow condition then m.withReturn 3 else m
  | .rst => m.withReturn 1
  | _ => m

/-- What an instruction with an operand without a value does. -/
def Instruction.leftover (i : Instruction) (m : Machine) : Machine :=
  match i.operation with
  | .mnemonic mnemonic => mnemonic.leftover i.condition m
  | _ => m

namespace Machine

variable {env : Env} {m : Machine}

/-- If an expression in the code of an instruction has no value, the instruction does no more than
what comes before its operands. -/
theorem holds_leftover (env : Env) (m : Machine) (mnemonic : Mnemonic)
    (condition : Option Condition) (modes : List Mode) :
    (Form.ofParts mnemonic condition modes).Holds fun e => env.value? e = none →
      m.perform env mnemonic condition modes = .ok (mnemonic.leftover condition m) := by
  unfold Form.ofParts
  split
  case h_1 bytes _ hi => exact Form.holds_fixed.mpr (Form.implied_lt hi)
  case h_2 =>
      exact Form.holds_load (fun e he hv => congrArg _ (load_of_lacks_target ⟨e, he, hv⟩))
        (fun e he hv => congrArg _ (load_of_lacks_source ⟨e, he, hv⟩))
  case h_3 | h_4 => exact Form.holds_stack (by decide)
  case h_5 => exact Form.holds_exchange
  case h_6 =>
      unfold Form.arithmetic
      split
      case h_1 source =>
          refine Form.holds_accumulator fun e he hv => congrArg Except.ok ?_
          rw [arithmetic_one]
          exact accumulate_of_none _ (byteOf?_of_lacks ⟨e, he, hv⟩)
      case h_2 => exact Form.holds_pairs
      case h_3 source =>
          exact Form.holds_accumulator fun e he hv =>
            congrArg Except.ok (accumulate_of_none _ (byteOf?_of_lacks ⟨e, he, hv⟩))
      case h_4 => exact Form.holds_unsupported
  case h_7 =>
      exact Form.holds_count (fun e he hv => congrArg _ (count_of_lacks false ⟨e, he, hv⟩))
        (by decide) (by decide)
  case h_8 =>
      exact Form.holds_count (fun e he hv => congrArg _ (count_of_lacks true ⟨e, he, hv⟩))
        (by decide) (by decide)
  case h_9 op _ _ =>
      exact Form.holds_shift fun e he hv =>
        congrArg _ (shift_of_none op (byteOf?_of_lacks ⟨e, he, hv⟩))
  case h_10 action _ _ _ =>
      refine Form.holds_bit (fun e he hv => congrArg _ (changeBit_of_noNumber action ?_))
        (fun e he hv => congrArg _ (changeBit_of_none action (byteOf?_of_lacks ⟨e, he, hv⟩)))
      rw [he, Option.bind_some, hv]
  case h_11 target _ =>
      cases target with
      | indexed x offset =>
          cases condition <;> cases offset <;> simp [Form.jump, Index.opcode_lt]
      | _ =>
          exact Form.holds_jump fun e he hv =>
            congrArg Except.ok (jump_of_lacks ⟨e, he, hv⟩ (by rintro _ _ ⟨⟩) condition)
  case h_12 target _ =>
      cases target with
      | indexed x offset => cases condition <;> exact Form.holds_unsupported
      | _ =>
          exact Form.holds_jumpRelative fun e he hv =>
            congrArg Except.ok (jump_of_lacks ⟨e, he, hv⟩ (by rintro _ _ ⟨⟩) condition)
  case h_13 =>
      simp only [Form.holds_code, List.forall_mem_cons, Field.holds_opcode, Field.holds_relative]
      exact ⟨by decide, fun _ => congrArg Except.ok (set8_decrement m), List.forall_mem_nil _⟩
  case h_14 =>
      refine Form.holds_call fun e he hv => congrArg Except.ok ?_
      rw [Mnemonic.leftover, ← call_of_lacks 3 ⟨e, he, hv⟩]
      rfl
  case h_15 => exact Form.holds_ret
  case h_16 vector _ =>
      simp only [Form.holds_code, List.forall_mem_singleton, Field.holds_restart]
      exact fun hv => congrArg Except.ok (call_of_lacks 1 ⟨vector, rfl, hv⟩)
  case h_17 =>
      simp only [Form.holds_code, List.forall_mem_cons, Field.holds_opcode,
        Field.holds_interruptMode]
      exact ⟨by decide, fun _ => rfl, List.forall_mem_nil _⟩
  case h_18 =>
      exact Form.holds_input fun e he hv =>
        congrArg _ (input_of_noPort (portOf?_of_lacks ⟨e, he, hv⟩))
  case h_19 =>
      exact Form.holds_output fun e he hv =>
        congrArg _ (output_of_noPort (portOf?_of_lacks ⟨e, he, hv⟩))
  case h_20 => exact Form.holds_unsupported

end Machine

end Z80Workbench
