import Z80Workbench.Proofs.Machine.Block.Steps
import Z80Workbench.Proofs.Machine.SameCode

/-!
# Z80Workbench.Proofs.Machine.Block.Copy

Copied blocks.  A block is copied byte by byte, so that where its two ends overlap, a byte that has
been copied may be copied again: with the destination a distance ahead of the source, the first
`distance` bytes of the source are repeated all over the destination.  This is how a block is filled
with a pattern.
-/

namespace Z80Workbench.Machine

open Arithmetic

variable {env : Env} {m n : Machine} {down : Bool}

/-- How many steps the destination of a copied block is ahead of its source. -/
def lead (down : Bool) (source target : Nat) : Nat :=
  word (direction down * ((target : Int) - source))

/-- The destination is reached again by the source after as many steps as it is ahead. -/
theorem eq_add_lead {source target i k : Nat} (hi : i < k) (hk : k < 65536)
    (h : onward down target i = onward down source k) : k = i + lead down source target := by
  unfold onward lead word direction at *
  cases down <;> simp only [if_true, Bool.false_eq_true, if_false] at * <;> omega

/-- As many steps on as the destination is ahead, the source is where the destination was. -/
theorem onward_add_lead (source target i : Nat) :
    onward down source (i + lead down source target) = onward down target i := by
  unfold onward lead word direction
  cases down <;> simp only [if_true, Bool.false_eq_true, if_false] <;> omega

/-- What is left behind once `count` bytes have been copied from HL to DE. -/
structure Copied (env : Env) (down : Bool) (m : Machine) (count : Nat) (n : Machine) : Prop where
  registers : n.registers =
    ((m.registers.setHl (onward down m.registers.hl count)).setDe
      (onward down m.registers.de count)).setBc (onward true m.registers.bc count)
  flags : n.flags = m.flags
  video : n.video = m.video
  /-- The bytes in front of the destination are repeated in it. -/
  inside : ∀ i < count, n.byteAt env (onward down m.registers.de i) =
    m.byteAt env (onward down m.registers.hl (i % lead down m.registers.hl m.registers.de))
  outside : ∀ other, (∀ i < count, onward down m.registers.de i ≠ other % 65536) →
    n.byteAt env other = m.byteAt env other

namespace Copied

theorem start (wf : m.WellFormed) : Copied env down m 0 m where
  registers := by
    have regs := wf.registers
    rw [onward_zero regs.hl_lt, onward_zero regs.de_lt, onward_zero regs.bc_lt, regs.setHl_hl,
      regs.setDe_de, regs.setBc_bc]
  flags := rfl
  video := rfl
  inside i hi := absurd hi (Nat.not_lt_zero i)
  outside _ _ := rfl

variable {count : Nat}

theorem hl (copied : Copied env down m count n) :
    n.registers.hl = onward down m.registers.hl count := by
  rw [copied.registers]
  simp [Nat.mod_eq_of_lt (onward_lt count)]

theorem de (copied : Copied env down m count n) :
    n.registers.de = onward down m.registers.de count := by
  rw [copied.registers]
  simp [Nat.mod_eq_of_lt (onward_lt count)]

theorem bc (copied : Copied env down m count n) :
    n.registers.bc = onward true m.registers.bc count := by
  rw [copied.registers]
  simp [Nat.mod_eq_of_lt (onward_lt count)]

/-- The byte that is copied next.  Either the source has come to a byte that has been copied, or it
has not yet got as far as the destination is ahead. -/
theorem next (copied : Copied env down m count n) (hc : count < 65536) :
    n.byteAt env (onward down m.registers.hl count) =
      m.byteAt env (onward down m.registers.hl
        (count % lead down m.registers.hl m.registers.de)) := by
  by_cases met : ∃ i < count, onward down m.registers.de i = onward down m.registers.hl count
  case pos =>
      obtain ⟨i, hi, same⟩ := met
      rw [← same, copied.inside i hi, eq_add_lead hi hc same, Nat.add_mod_right]
  case neg =>
      have far : ∀ i < count,
          onward down m.registers.de i ≠ onward down m.registers.hl count % 65536 := by
        intro i hi same
        exact met ⟨i, hi, same.trans (Nat.mod_eq_of_lt (onward_lt count))⟩
      have ahead : lead down m.registers.hl m.registers.de = 0 ∨
          count < lead down m.registers.hl m.registers.de := by
        refine Decidable.or_iff_not_imp_left.mpr fun apart => Nat.lt_of_not_le fun reached => ?_
        refine met ⟨count - lead down m.registers.hl m.registers.de, by omega, ?_⟩
        rw [← onward_add_lead, Nat.sub_add_cancel reached]
      rw [copied.outside _ far]
      cases ahead with
      | inl same => rw [same, Nat.mod_zero]
      | inr short => rw [Nat.mod_eq_of_lt short]

theorem flags_copyByte : (n.copyByte env down).flags = n.flags :=
  (n.store n.registers.de (n.byteAt env n.registers.hl)).flags_withRegisters _

theorem video_copyByte : (n.copyByte env down).video = n.video :=
  (n.store n.registers.de (n.byteAt env n.registers.hl)).video_withRegisters _

theorem byteAt_copyByte (other : Nat) : (n.copyByte env down).byteAt env other =
    if n.registers.de % 65536 = other % 65536 then n.byteAt env n.registers.hl % 256
    else n.byteAt env other := by
  rw [← byteAt_store_other]
  exact byteAt_congr
    ((n.store n.registers.de (n.byteAt env n.registers.hl)).memory_withRegisters _) other

/-- One more byte is copied. -/
theorem step (wf : m.WellFormed) (hi : env.image.WellFormed) (copied : Copied env down m count n)
    (hc : count < 65536) : Copied env down m (count + 1) (n.copyByte env down) where
  registers := by
    rw [registers_copyByte, copied.hl, copied.de, copied.bc, move_onward, move_onward,
      move_onward, copied.registers, Registers.setPairs_again]
  flags := flags_copyByte.trans copied.flags
  video := video_copyByte.trans copied.video
  inside i bound := by
    rw [byteAt_copyByte, copied.de, copied.hl]
    obtain before | rfl := Nat.lt_or_eq_of_le (Nat.le_of_lt_succ bound)
    · have apart : ¬onward down m.registers.de count % 65536 =
          onward down m.registers.de i % 65536 := by
        rw [Nat.mod_eq_of_lt (onward_lt count), Nat.mod_eq_of_lt (onward_lt i)]
        intro same
        exact Nat.ne_of_gt before (onward_inj hc (Nat.lt_trans before hc) same)
      rw [if_neg apart, copied.inside i before]
    · rw [if_pos rfl, copied.next hc, Nat.mod_eq_of_lt (wf.byteAt_lt hi _)]
  outside other far := by
    have apart := far count (Nat.lt_succ_self count)
    rw [byteAt_copyByte, copied.de, Nat.mod_eq_of_lt (onward_lt count), if_neg apart]
    exact copied.outside other fun i before => far i (Nat.lt_succ_of_lt before)

/-- A whole block is copied, up to the size of the address space. -/
theorem run (wf : m.WellFormed) (hi : env.image.WellFormed) (hc : count ≤ 65536) :
    Copied env down m count (iterate (copyByte env down) count m) := by
  induction count with
  | zero => exact start wf
  | succ k ih =>
      rw [iterate_succ]
      exact (ih (Nat.le_of_succ_le hc)).step wf hi hc

end Copied

theorem blockCopy_repeating : m.blockCopy env ⟨down, true⟩ =
    (iterate (copyByte env down) (blockLength m.registers.bc 65536) m).flagBc := rfl

/-- **Copying a block.**  `LDIR` and `LDDR` copy as many bytes as BC tells, zero standing for all
65536.  Where the destination is ahead of the source, the bytes between the two are repeated; all
other bytes stay as they are.  HL and DE have moved on over the block, BC is used up, and nothing
else has changed but the overflow flag. -/
theorem runLine_blockCopy {line : SourceLine}
    (ho : line.operation = some (.mnemonic (.blockCopy ⟨down, true⟩))) (wf : m.WellFormed)
    (hi : env.image.WellFormed) (address : Option Nat) :
    let regs := (m.arriveAt address).registers
    let count := blockLength regs.bc 65536
    let distance := word (direction down * ((regs.de : Int) - regs.hl))
    ∃ n : Machine, m.runLine env line address = .ok n ∧
      n.registers = ((regs.setHl (onward down regs.hl count)).setDe
        (onward down regs.de count)).setBc 0 ∧
      n.flags = { m.flags with pv := false } ∧
      n.video = m.video ∧
      (∀ i < count, n.byteAt env (onward down regs.de i) =
        m.byteAt env (onward down regs.hl (if distance = 0 then i else i % distance))) ∧
      ∀ other, (∀ i < count, onward down regs.de i ≠ other % 65536) →
        n.byteAt env other = m.byteAt env other := by
  intro regs count distance
  have arrived : (m.arriveAt address).WellFormed := wf.arriveAt address
  have counter : regs.bc < 65536 := arrived.registers.bc_lt
  have copied : Copied env down (m.arriveAt address) count
      (iterate (copyByte env down) count (m.arriveAt address)) :=
    .run arrived hi (blockLength_le counter)
  have usedUp : onward true regs.bc count = 0 := onward_self (blockLength_mod counter)
  have cycle : ∀ i, (if distance = 0 then i else i % distance) = i % distance := by
    intro i
    split
    case isTrue zero => rw [zero, Nat.mod_zero]
    case isFalse => rfl
  refine ⟨(m.arriveAt address).blockCopy env ⟨down, true⟩,
    runLine_of_operandless ho (fun _ _ _ => rfl) m address, ?registers, ?flags, ?video, ?inside,
    ?outside⟩
  all_goals rw [blockCopy_repeating]
  case registers => rw [registers_flagBc, copied.registers, usedUp]
  case flags => rw [flags_flagBc, copied.flags, copied.bc, usedUp, flags_arriveAt]; rfl
  case video => rw [video_flagBc, copied.video, video_arriveAt]
  case inside =>
      intro i before
      rw [byteAt_flagBc, cycle, copied.inside i before, byteAt_arriveAt]
      rfl
  case outside =>
      intro other far
      rw [byteAt_flagBc, copied.outside other far, byteAt_arriveAt]

/-- A machine about to fill four bytes with the one in front of them. -/
def filling : Machine :=
  { initial {} with
    registers := (((initial {}).registers.setHl 0xC000).setDe 0xC001).setBc 4 }.store 0xC000 0xAA

theorem runLine_blockCopy_fill :
    ∃ n : Machine, filling.runLine bareEnv (plainLine (.blockCopy ⟨false, true⟩) "") none = .ok n ∧
      n.registers.hl = 0xC004 ∧
      (∀ i < 4, n.byteAt bareEnv (0xC001 + i) = 0xAA) ∧ n.byteAt bareEnv 0xC005 = 0 := by
  have fresh : (initial {}).WellFormed := .initial {}
  have wf : filling.WellFormed :=
    (fresh.setRegisters (((fresh.registers.setHl 0xC000).setDe 0xC001).setBc 4)).store 0xC000 0xAA
  have bare : bareEnv.image.WellFormed := .empty
  have operation : (plainLine (.blockCopy ⟨false, true⟩) "").operation =
      some (.mnemonic (.blockCopy ⟨false, true⟩)) := rfl
  obtain ⟨n, ran, registers, -, -, inside, outside⟩ := runLine_blockCopy operation wf bare none
  refine ⟨n, ran, ?advanced, fun i before => ?filled, ?kept⟩
  case advanced => rw [registers]; decide +kernel
  case filled =>
      have there : ∀ i < 4, onward false (filling.arriveAt none).registers.de i = 0xC001 + i := by
        decide +kernel
      have count : blockLength (filling.arriveAt none).registers.bc 65536 = 4 := by decide +kernel
      rw [← there i before, inside i (count ▸ before)]
      revert i
      decide +kernel
  case kept =>
      rw [outside 0xC005 (by decide +kernel)]
      decide +kernel

end Z80Workbench.Machine
