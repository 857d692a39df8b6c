import Z80Workbench.Proofs.Machine.Block.Repetition
import Z80Workbench.Proofs.Machine.Stack

/-!
# Z80Workbench.Proofs.Machine.ProgramCounter

Which instructions set the program counter.  Only jumps, calls and returns do; every other one,
the counted branch included, leaves it where coming to the line has set it, so that it tells which
line was executed.
-/

namespace Z80Workbench

open Machine (Env)

/-- The words that set the program counter. -/
def Mnemonic.setsPc : Mnemonic → Bool
  | .jp | .jr | .call | .rst | .ret | .reti | .retn => true
  | _ => false

namespace Registers

variable {regs written : Registers} {value : Nat}

theorem pc_set8 (register : Reg8) : (regs.set8 register value).pc = regs.pc := by
  cases register <;> rfl

theorem pc_setPair? {p : Pair} (h : regs.setPair? p value = some written) :
    written.pc = regs.pc := by
  cases p with
  | af | afShadow => cases h
  | index x => cases x <;> cases h <;> rfl
  | bc | de | hl | sp => cases h; rfl

/-- Pairs that cannot be written are left as they are. -/
theorem pc_setPair?_getD (p : Pair) : ((regs.setPair? p value).getD regs).pc = regs.pc := by
  cases h : regs.setPair? p value with
  | none => rfl
  | some written => exact pc_setPair? h

end Registers

namespace Machine

open Registers (pc_set8 pc_setPair? pc_setPair?_getD)

variable {env : Env} {m n : Machine}

/-! ## loads and exchanges -/

theorem pc_setPair {p : Pair} {value : Nat} (h : m.setPair p value = .ok n) :
    n.registers.pc = m.registers.pc := by
  unfold setPair at h
  split at h
  case isTrue =>
      cases h
      rfl
  case isFalse =>
      split at h
      case h_1 written found =>
          cases h
          exact pc_setPair? found
      case h_2 => cases h

theorem pc_setByte? {mode : Mode} {value : Nat} (h : m.setByte? env mode value = some n) :
    n.registers.pc = m.registers.pc := by
  unfold setByte? at h
  split at h
  · cases h
    exact pc_set8 _
  · obtain ⟨address, -, rfl⟩ := Option.map_eq_some_iff.mp h
    rfl

theorem pc_loadMemory (target source : Mode) :
    (m.loadMemory env target source).registers.pc = m.registers.pc := by
  unfold loadMemory
  split
  · rfl
  · split <;> rfl
  · rfl

theorem pc_load (target source : Mode) :
    (m.load env target source).registers.pc = m.registers.pc := by
  unfold load
  split
  case h_1 | h_2 => rfl
  case h_3 =>
      split
      · exact pc_set8 _
      · rfl
  case h_4 =>
      split
      · exact pc_setPair?_getD _
      · rfl
  case h_5 => rfl
  case h_6 => exact pc_loadMemory _ _

theorem pc_exchangeTop {p : Pair} (h : m.exchangeTop env p = .ok n) :
    n.registers.pc = m.registers.pc := by
  unfold exchangeTop at h
  split at h
  case isTrue => cases h
  case isFalse =>
      have kept := pc_setPair h
      exact kept

theorem pc_exchange {first second : Mode} (h : m.exchange env first second = .ok n) :
    n.registers.pc = m.registers.pc := by
  unfold exchange at h
  split at h
  case h_1 | h_2 | h_3 => cases h; rfl
  case h_4 =>
      split at h
      · exact pc_exchangeTop h
      · cases h
        rfl

/-! ## arithmetic -/

theorem pc_accumulate (op : Alu) (source : Mode) :
    (m.accumulate env op source).registers.pc = m.registers.pc := by
  unfold accumulate
  split <;> rfl

theorem pc_accumulatePair (op : Alu) (p : Pair) (source : Mode) :
    (m.accumulatePair env op p source).registers.pc = m.registers.pc := by
  unfold accumulatePair
  dsimp only
  split
  · split
    · exact pc_setPair?_getD p
    · rfl
  · rfl

theorem pc_arithmetic (op : Alu) (modes : List Mode) :
    (m.arithmetic env op modes).registers.pc = m.registers.pc := by
  unfold arithmetic
  split
  · exact pc_accumulatePair op _ _
  · exact pc_accumulate op _
  · exact pc_accumulate op _
  · rfl

theorem pc_countByte (down : Bool) (mode : Mode) (value : Nat) :
    (m.countByte env down mode value).registers.pc = m.registers.pc := by
  unfold countByte
  dsimp only
  split
  case h_1 written found =>
      have kept := pc_setByte? found
      exact kept
  case h_2 => rfl

theorem pc_count (down : Bool) (mode : Mode) :
    (m.count env down mode).registers.pc = m.registers.pc := by
  unfold count
  split
  · exact pc_setPair?_getD _
  · rfl
  · split
    · exact pc_countByte down mode _
    · rfl

/-! ## bits and digits -/

theorem pc_shift (op : Shift) (mode : Mode) :
    (m.shift env op mode).registers.pc = m.registers.pc := by
  unfold shift
  dsimp only
  split
  · rfl
  · split
    · split
      case h_1 written found =>
          have kept := pc_setByte? found
          exact kept
      case h_2 => rfl
    · rfl

theorem pc_changeBit (action : BitAction) (number mode : Mode) :
    (m.changeBit env action number mode).registers.pc = m.registers.pc := by
  have written (value : Nat) :
      ((m.setByte? env mode value).getD m).registers.pc = m.registers.pc := by
    cases h : m.setByte? env mode value with
    | none => rfl
    | some n => exact pc_setByte? h
  unfold changeBit
  split
  · split
    · cases action with
      | test => rfl
      | set | reset => exact written _
    · rfl
  · rfl

/-! ## ports and block instructions -/

theorem pc_output (port source : Mode) :
    (m.output env port source).registers.pc = m.registers.pc := by
  unfold output
  split <;> rfl

theorem pc_input (target port : Mode) :
    (m.input env target port).registers.pc = m.registers.pc := by
  unfold input
  split
  · exact pc_set8 _
  · rfl

/-- What every step keeps is kept by all of them. -/
theorem pc_iterate {f : Machine → Machine} (h : ∀ m, (f m).registers.pc = m.registers.pc)
    (count : Nat) (m : Machine) : (iterate f count m).registers.pc = m.registers.pc := by
  induction count generalizing m with
  | zero => rfl
  | succ count ih => exact (ih (f m)).trans (h m)

theorem pc_searchBlock (down : Bool) (count : Nat) (m : Machine) :
    (searchBlock env down count m).registers.pc = m.registers.pc := by
  induction count generalizing m with
  | zero => rfl
  | succ count ih =>
      have first : (m.searchByte env down).registers.pc = m.registers.pc :=
        BlockKind.pc_step .search m
      rw [searchBlock]
      split
      · exact first
      · exact (ih (m.searchByte env down)).trans first

/-! ## all instructions -/

/-- An instruction that is no jump, call or return keeps the program counter. -/
theorem pc_perform {mnemonic : Mnemonic} {condition : Option Condition} {modes : List Mode}
    (h : m.perform env mnemonic condition modes = .ok n) (plain : mnemonic.setsPc = false) :
    n.registers.pc = m.registers.pc := by
  unfold perform at h
  split at h
  case h_3 =>
      have kept := pc_setPair h
      exact kept
  case h_4 => exact pc_exchange h
  all_goals cases h
  case h_1 => exact pc_load _ _
  case h_2 => rw [registers_push]
  case h_5 => rfl
  case h_6 => exact pc_arithmetic _ _
  case h_7 | h_8 => exact pc_count _ _
  case h_9 | h_10 | h_11 | h_12 | h_13 => rfl
  case h_14 => exact pc_shift _ _
  case h_15 => exact pc_changeBit _ _ _
  case h_16 | h_17 => rfl
  case h_18 | h_19 | h_21 | h_22 | h_23 | h_24 | h_25 => cases plain
  case h_20 => exact pc_set8 .b
  case h_26 => exact pc_input _ _
  case h_27 => exact pc_output _ _
  case h_28 => exact pc_iterate (fun m => BlockKind.pc_step .copy m) _ m
  case h_29 => exact pc_searchBlock _ _ m
  case h_30 => exact pc_iterate (fun m => @BlockKind.pc_step env _ .input m) _ m
  case h_31 => exact pc_iterate (fun m => BlockKind.pc_step .output m) _ m
  case h_32 => rfl

/-- A line that holds no jump, call or return, or no instruction at all, leaves the program counter
at the line. -/
theorem pc_executeAt {i : Instruction} {address : Option Nat}
    (plain : ∀ mnemonic, i.operation = .mnemonic mnemonic → mnemonic.setsPc = false)
    (h : m.executeAt env i address = .ok n) :
    n.registers.pc = (m.arriveAt address).registers.pc := by
  have h : (m.arriveAt address).execute env i = .ok n := h
  rw [execute] at h
  split at h
  case h_1 mnemonic operation => exact pc_perform h (plain mnemonic operation)
  case h_2 =>
      cases h
      rfl

end Machine

end Z80Workbench
