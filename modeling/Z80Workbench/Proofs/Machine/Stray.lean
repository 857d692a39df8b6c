import Z80Workbench.Proofs.Machine.Inert.Control
import Z80Workbench.Proofs.Machine.Inert.Data

/-!
# Z80Workbench.Proofs.Machine.Stray

Instructions without code.  Which instructions can be encoded and which ones do something is decided
apart, and some combinations of operands are refused by the one but have a meaning for the other:
`EX (SP),BC` exchanges, `ADD B,C` adds to the accumulator and `RLC (BC)` rotates a byte.  All others
that are refused do nothing, from whatever state.
-/

namespace Z80Workbench

open Machine (Env)

variable {ctx : Context} {c : Cause}

/-! ## all instructions -/

namespace Machine

open Mnemonic

variable {env : Env} {m : Machine}

theorem not_inert_exchangeShadow : ¬Inert fun m => .ok m.exchangeShadow :=
  not_inert_of_ne (wf_counting .b) fun same =>
    absurd (congrArg (·.registers.b) same) (by decide)

theorem not_inert_negate : ¬Inert fun m => .ok m.negate :=
  not_inert_of_ne wf_contrary (ne_contrary (Arithmetic.coherent_sub8 _ _ _))

theorem not_inert_invert : ¬Inert fun m => .ok m.invert :=
  not_inert_of_ne wf_blank fun same => absurd (congrArg (·.registers.a) same) (by decide)

theorem not_inert_setCarry : ¬Inert fun m => .ok (m.setCarry true) :=
  not_inert_of_ne wf_blank fun same => absurd (congrArg (·.flags.c) same) (by decide)

theorem not_inert_invertCarry : ¬Inert fun m => .ok (m.setCarry !m.flags.c) :=
  not_inert_of_ne wf_blank fun same => absurd (congrArg (·.flags.c) same) (by decide)

theorem not_inert_rotate (op : Rotation) : ¬Inert fun m => .ok (m.rotate op) :=
  not_inert_of_ne (wf_counting .a) fun same =>
    absurd (congrArg (·.registers.a) same) (by cases op <;> decide)

theorem not_inert_rotateDigitLeft : ¬Inert fun m => .ok (m.rotateDigitLeft env) :=
  not_inert_of_ne wf_contrary (ne_contrary (Arithmetic.coherent_parityFlags _ _))

theorem not_inert_rotateDigitRight : ¬Inert fun m => .ok (m.rotateDigitRight env) :=
  not_inert_of_ne wf_contrary (ne_contrary (Arithmetic.coherent_parityFlags _ _))

theorem not_inert_countDown :
    ¬Inert fun m => .ok (m.set8 .b (Arithmetic.decrement m.registers.b)) :=
  not_inert_of_ne (wf_counting .b) fun same =>
    absurd (congrArg (·.registers.b) same) (by decide)

/-- An instruction does something in some state if and only if it acts. -/
theorem inert_perform (mnemonic : Mnemonic) (condition : Option Condition) (modes : List Mode) :
    Inert (fun m => m.perform env mnemonic condition modes) ↔
      mnemonic.acts env modes = false := by
  have idle : ∀ {f : Machine → Except UnknownRegister Machine}, (∀ m, f m = .ok m) →
      (Inert f ↔ false = false) := fun h => iff_of_true (fun m _ => h m) rfl
  have busy : ∀ {f : Machine → Except UnknownRegister Machine}, ¬Inert f →
      (Inert f ↔ true = false) := fun h => iff_of_false h nofun
  cases mnemonic with
  | ld =>
      match modes with
      | [target, source] => exact inert_load target source
      | [] | [_] | _ :: _ :: _ :: _ => exact idle fun _ => rfl
  | push =>
      match modes with
      | .reg16 p :: _ => exact busy (not_inert_push p)
      | [] | .reg8 _ :: _ | .immediate _ :: _ | .indirect _ :: _ | .indexed _ _ :: _
      | .absolute _ :: _ => exact idle fun _ => rfl
  | pop =>
      match modes with
      | .reg16 p :: _ => exact busy (not_inert_pop p)
      | [] | .reg8 _ :: _ | .immediate _ :: _ | .indirect _ :: _ | .indexed _ _ :: _
      | .absolute _ :: _ => exact idle fun _ => rfl
  | ex =>
      match modes with
      | [first, second] => exact inert_exchange first second
      | [] | [_] | _ :: _ :: _ :: _ => exact idle fun _ => rfl
  | exx => exact busy not_inert_exchangeShadow
  | alu op => exact inert_arithmetic op modes
  | inc =>
      match modes with
      | mode :: _ => exact inert_count false mode
      | [] => exact idle fun _ => rfl
  | dec =>
      match modes with
      | mode :: _ => exact inert_count true mode
      | [] => exact idle fun _ => rfl
  | neg => exact busy not_inert_negate
  | cpl => exact busy not_inert_invert
  | scf => exact busy not_inert_setCarry
  | ccf => exact busy not_inert_invertCarry
  | rotate op => exact busy (not_inert_rotate op)
  | shift op =>
      match modes with
      | mode :: _ => exact inert_shift op mode
      | [] => exact idle fun _ => rfl
  | bit action =>
      match modes with
      | [number, mode] => exact inert_changeBit action number mode
      | [] | [_] | _ :: _ :: _ :: _ => exact idle fun _ => rfl
  | rld => exact busy not_inert_rotateDigitLeft
  | rrd => exact busy not_inert_rotateDigitRight
  | jp | jr => exact inert_jump condition modes.getLast?
  | djnz => exact busy not_inert_countDown
  | call => exact busy (not_inert_call condition 3 modes.getLast?)
  | rst => exact busy (not_inert_call none 1 modes.getLast?)
  | ret => exact busy (not_inert_ret condition)
  | reti | retn => exact busy (not_inert_ret none)
  | input =>
      match modes with
      | [target, port] => exact inert_input target port
      | [] | [_] | _ :: _ :: _ :: _ => exact idle fun _ => rfl
  | output =>
      match modes with
      | [port, source] => exact inert_output port source
      | [] | [_] | _ :: _ :: _ :: _ => exact idle fun _ => rfl
  | blockCopy stride => exact busy (not_inert_blockCopy stride)
  | blockSearch stride => exact busy (not_inert_blockSearch stride)
  | blockInput stride => exact busy (not_inert_blockInput stride)
  | blockOutput stride => exact busy (not_inert_blockOutput stride)
  | daa | nop | halt | di | ei | im => exact idle fun _ => rfl

end Machine

/-! ## refused lines -/

namespace Instruction

/-- Whether the instruction does anything in some state. -/
def acts (env : Env) (i : Instruction) : Bool :=
  match i.operation with
  | .mnemonic mnemonic => mnemonic.acts env (i.operands.map (·.mode))
  | _ => false

/-- The instruction does something although it has no code. -/
def isStray (env : Env) (i : Instruction) : Bool := i.form.code?.isNone && i.acts env

end Instruction

namespace Machine

variable {env : Env} {ctx : Context} {c : Cause} {line : SourceLine} {i : Instruction}

/-- A line with a mnemonic does nothing but come to its address, from whatever state, if and only
if its instruction does not act. -/
theorem runLine_eq_arriveAt_iff (hl : line.instruction? = some i) (hs : i.isSupported = true) :
    (∀ m : Machine, m.WellFormed → ∀ address,
        m.runLine env line address = .ok (m.arriveAt address)) ↔ i.acts env = false := by
  obtain ⟨mnemonic, ho⟩ : ∃ mnemonic, i.operation = .mnemonic mnemonic := by
    unfold Instruction.isSupported at hs
    split at hs
    case h_1 mnemonic ho => exact ⟨mnemonic, ho⟩
    case h_2 => cases hs
  rw [Instruction.acts, ho]
  refine Iff.trans ?_ (inert_perform mnemonic i.condition (i.operands.map (·.mode)))
  refine ⟨fun still m wf => ?_, fun inert m wf address => ?_⟩
  · exact (runLine_of_mnemonic hl ho m none).symm.trans (still m wf none)
  · rw [runLine_of_mnemonic hl ho]
    exact inert _ (wf.arriveAt address)

/-- A machine with BC, and a word on top of the stack. -/
def stacked : Machine :=
  ({ blank with registers := { b := 0x12, c := 0x34, sp := 0xC000 } }).storeWord 0xC000 0xABCD

end Machine

end Z80Workbench
