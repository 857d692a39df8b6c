import Z80Workbench.Proofs.Machine.Block.Steps
import Z80Workbench.Proofs.Machine.SameCode

/-!
# Z80Workbench.Proofs.Machine.Block.Search

Searched blocks.  A search compares byte after byte with the accumulator and stops behind the first
that equals it, or behind the block.  Pointer and counter do not tell a match at the very end from
none at all; only the zero flag does, which is that of the last comparison.
-/

namespace Z80Workbench.Machine

open Arithmetic

variable {env : Env} {m : Machine} {down : Bool}

/-- The byte that is some steps on from HL. -/
def byteOnward (env : Env) (down : Bool) (m : Machine) (steps : Nat) : Nat :=
  m.byteAt env (onward down m.registers.hl steps)

/-- The machine once it has compared some bytes of a block, from HL on. -/
def searched (env : Env) (down : Bool) (m : Machine) : Nat → Machine
  | 0 => m
  | k + 1 =>
    { m with
      registers := (m.registers.setHl (onward down m.registers.hl (k + 1))).setBc
        (onward true m.registers.bc (k + 1))
      flags :=
        { m.flags with
          z := m.byteOnward env down k = m.registers.a
          s := negative8 (byte (m.registers.a - m.byteOnward env down k)) } }

/-- Bytes are equal if and only if their difference is zero. -/
theorem byte_sub_eq_zero_iff {a b : Nat} (ha : a < 256) (hb : b < 256) :
    byte (a - b) = 0 ↔ b = a := by
  unfold byte
  omega

/-- What one comparison does. -/
theorem searchByte_eq (n : Machine) : n.searchByte env down =
    { n with
      registers := (n.registers.setHl (move down n.registers.hl)).setBc
        (move true n.registers.bc)
      flags :=
        { n.flags with
          z := byte (n.registers.a - n.byteAt env n.registers.hl) = 0
          s := negative8 (byte (n.registers.a - n.byteAt env n.registers.hl)) } } := rfl

section Searched

variable (k : Nat)

theorem registers_searched (wf : m.WellFormed) : (m.searched env down k).registers =
    (m.registers.setHl (onward down m.registers.hl k)).setBc (onward true m.registers.bc k) := by
  cases k with
  | zero =>
      have regs := wf.registers
      rw [onward_zero regs.hl_lt, onward_zero regs.bc_lt, regs.setHl_hl, regs.setBc_bc]
      rfl
  | succ k => rfl

theorem memory_searched : (m.searched env down k).memory = m.memory := by cases k <;> rfl

theorem video_searched : (m.searched env down k).video = m.video := by cases k <;> rfl

theorem c_searched : (m.searched env down k).flags.c = m.flags.c := by cases k <;> rfl

theorem pv_searched : (m.searched env down k).flags.pv = m.flags.pv := by cases k <;> rfl

theorem hl_searched (wf : m.WellFormed) :
    (m.searched env down k).registers.hl = onward down m.registers.hl k := by
  rw [registers_searched k wf]
  simp [Nat.mod_eq_of_lt (onward_lt k)]

theorem bc_searched (wf : m.WellFormed) :
    (m.searched env down k).registers.bc = onward true m.registers.bc k := by
  rw [registers_searched k wf]
  simp [Nat.mod_eq_of_lt (onward_lt k)]

/-- One more byte is compared. -/
theorem searchByte_searched (wf : m.WellFormed) (hi : env.image.WellFormed) :
    (m.searched env down k).searchByte env down = m.searched env down (k + 1) := by
  have equal : byte (m.registers.a - m.byteOnward env down k) = 0 ↔
      m.byteOnward env down k = m.registers.a :=
    byte_sub_eq_zero_iff wf.registers.a (wf.byteAt_lt hi _)
  rw [searchByte_eq, byteAt_congr (memory_searched k), hl_searched k wf, bc_searched k wf,
    registers_searched k wf, Registers.setHl_setBc_again, move_onward, move_onward,
    memory_searched, video_searched]
  simp only [c_searched, pv_searched]
  rw [searched, ← decide_eq_decide.mpr equal]
  rfl

/-- The search goes on from wherever it is, until it has found the accumulator or has compared all
bytes that are left. -/
theorem searchBlock_searched (wf : m.WellFormed) (hi : env.image.WellFormed) (left : Nat) :
    searchBlock env down left (m.searched env down k) =
      m.searched env down ((((List.range' k left).find? fun i =>
        m.byteOnward env down i = m.registers.a).map (· + 1)).getD (k + left)) := by
  induction left generalizing k with
  | zero => rfl
  | succ left ih =>
      rw [searchBlock, searchByte_searched k wf hi, List.range'_succ]
      by_cases equal : m.byteOnward env down k = m.registers.a
      case pos =>
          rw [List.find?_cons_of_pos (by simpa using equal)]
          exact if_pos (decide_eq_true equal)
      case neg =>
          rw [List.find?_cons_of_neg (by simpa using equal), ← Nat.add_assoc,
            Nat.add_right_comm, ← ih (k + 1)]
          exact if_neg (by simpa [searched] using equal)

end Searched

/-- How many bytes of a block are compared: up to the first that fits, or all of them. -/
def comparisons (fits : Nat → Bool) (count : Nat) : Nat :=
  (((List.range count).find? fits).map (· + 1)).getD count

section Comparisons

variable (fits : Nat → Bool) {count : Nat}

theorem comparisons_pos (h : 0 < count) : 0 < comparisons fits count := by
  unfold comparisons
  cases (List.range count).find? fits with
  | none => exact h
  | some i => exact Nat.succ_pos i

/-- The byte that is compared last fits if and only if one does. -/
theorem fits_last (h : 0 < count) :
    fits (comparisons fits count - 1) = ((List.range count).find? fits).isSome := by
  unfold comparisons
  cases found : (List.range count).find? fits with
  | none =>
      have misfit := List.find?_eq_none.mp found (count - 1)
        (List.mem_range.mpr (Nat.sub_one_lt_of_lt h))
      simpa using misfit
  | some i => exact List.find?_some found

end Comparisons

/-- Searching a block compares bytes one by one and sets the overflow flag. -/
theorem blockSearch_repeating (wf : m.WellFormed) (hi : env.image.WellFormed) :
    m.blockSearch env ⟨down, true⟩ =
      (m.searched env down (comparisons (fun i => m.byteOnward env down i = m.registers.a)
        (blockLength m.registers.bc 65536))).flagBc := by
  show (searchBlock env down (blockLength m.registers.bc 65536) (m.searched env down 0)).flagBc = _
  rw [searchBlock_searched 0 wf hi, Nat.zero_add, comparisons, List.range_eq_range']

/-- What is left once at least one byte has been compared. -/
theorem flagBc_searched (wf : m.WellFormed) {k : Nat} (hk : 0 < k) :
    (m.searched env down k).flagBc =
      { m with
        registers := (m.registers.setHl (onward down m.registers.hl k)).setBc
          (onward true m.registers.bc k)
        flags :=
          { m.flags with
            z := m.byteOnward env down (k - 1) = m.registers.a
            s := negative8 (byte (m.registers.a - m.byteOnward env down (k - 1)))
            pv := onward true m.registers.bc k ≠ 0 } } := by
  rw [flagBc, bc_searched k wf]
  cases k with
  | zero => exact absurd hk (Nat.lt_irrefl 0)
  | succ k => rfl

/-- **Searching a block.**  `CPIR` and `CPDR` compare as many bytes as BC tells, zero standing for
all 65536, but no byte behind the first that equals the accumulator.  HL has moved on over the bytes
compared and BC is less by their number.  The zero flag tells whether the accumulator was found, the
sign is that of the last comparison, and the overflow flag tells whether BC is not used up; nothing
else has changed. -/
theorem runLine_blockSearch {line : SourceLine}
    (ho : line.operation = some (.mnemonic (.blockSearch ⟨down, true⟩))) (wf : m.WellFormed)
    (hi : env.image.WellFormed) (address : Option Nat) :
    let regs := (m.arriveAt address).registers
    let count := blockLength regs.bc 65536
    let found := (List.range count).find? fun i =>
      m.byteAt env (onward down regs.hl i) = regs.a
    let compared := (found.map (· + 1)).getD count
    let last := m.byteAt env (onward down regs.hl (compared - 1))
    m.runLine env line address = .ok
      { m.arriveAt address with
        registers := (regs.setHl (onward down regs.hl compared)).setBc
          (onward true regs.bc compared)
        flags :=
          { m.flags with
            z := found.isSome
            s := negative8 (byte (regs.a - last))
            pv := onward true regs.bc compared ≠ 0 } } := by
  intro regs count found compared last
  have arrived : (m.arriveAt address).WellFormed := wf.arriveAt address
  have positive : 0 < count := blockLength_pos (by decide)
  have same : ∀ i, (m.arriveAt address).byteOnward env down i =
      m.byteAt env (onward down regs.hl i) := fun i => byteAt_arriveAt address _
  have last_fits : decide (last = regs.a) = found.isSome :=
    fits_last (fun i => m.byteAt env (onward down regs.hl i) = regs.a) positive
  have ran : m.runLine env line address =
      .ok ((m.arriveAt address).blockSearch env ⟨down, true⟩) :=
    runLine_of_operandless ho (fun _ _ _ => rfl) m address
  rw [ran, blockSearch_repeating arrived hi, flagBc_searched arrived (comparisons_pos _ positive),
    flags_arriveAt]
  simp only [same]
  rw [← last_fits]
  rfl

/-- A machine about to search three bytes, the second of which equals the accumulator. -/
def searching : Machine :=
  { initial {} with
    registers := (((initial {}).registers.set8 .a 0x42).setHl 0xC000).setBc 3 }.store 0xC001 0x42

theorem wellFormed_searching : searching.WellFormed := by
  have fresh : (initial {}).WellFormed := .initial {}
  exact (fresh.setRegisters
    (((fresh.registers.set8 .a 0x42).setHl 0xC000).setBc 3)).store 0xC001 0x42

theorem runLine_blockSearch_second :
    ∃ n : Machine, searching.runLine bareEnv (plainLine (.blockSearch ⟨false, true⟩) "") none =
        .ok n ∧
      n.registers.hl = 0xC002 ∧ n.registers.bc = 1 ∧ n.flags.z = true ∧ n.flags.pv = true := by
  have bare : bareEnv.image.WellFormed := .empty
  have operation : (plainLine (.blockSearch ⟨false, true⟩) "").operation =
      some (.mnemonic (.blockSearch ⟨false, true⟩)) := rfl
  refine ⟨_, runLine_blockSearch operation wellFormed_searching bare none, ?advanced, ?counted,
    ?found, ?left⟩
  all_goals decide +kernel

end Z80Workbench.Machine
