import Z80Workbench.Proofs.Machine.Block.Search

/-!
# Z80Workbench.Proofs.Machine.Block.Repetition

Repeating block instructions and their single forms.  A repeating form tells from its counter how
often it will run and sets its flag once, behind the last byte.  Its single form sets the flag with
every byte, and who repeats it looks at the counter in between.  That both come to the same machine
rests on two facts: no byte is treated differently for the flag that was set before it, and each
byte counts the counter down by one.
-/

namespace Z80Workbench

/-! ## repetition of a step -/

section Until

variable {ε α : Type} {step : α → Except ε α} {done : α → Prop} {m n l : α}

/-- Where a step leads that is taken at least once, and until it is done. -/
inductive Until (step : α → Except ε α) (done : α → Prop) : α → α → Prop
  | last {m n : α} : step m = .ok n → done n → Until step done m n
  | more {m n l : α} : step m = .ok n → ¬done n → Until step done n l → Until step done m l

/-- A step leads to one state only. -/
theorem Until.unique (first : Until step done m n) (second : Until step done m l) : n = l := by
  induction first with
  | last taken isDone =>
      cases second with
      | last again _ => exact Except.ok.inj (taken.symm.trans again)
      | more again undone _ => exact absurd (Except.ok.inj (taken.symm.trans again) ▸ isDone) undone
  | more taken undone _ ih =>
      cases second with
      | last again isDone => exact absurd (Except.ok.inj (again.symm.trans taken) ▸ isDone) undone
      | more again _ rest => exact ih (Except.ok.inj (again.symm.trans taken) ▸ rest)

end Until

namespace Machine

variable {env : Env} {m : Machine} {down : Bool}

/-! ## the kinds of block instructions -/

/-- What a block instruction does with each byte. -/
inductive BlockKind where
  | copy
  | search
  | input
  | output

namespace BlockKind

/-- The instruction of a kind. -/
def mnemonic : BlockKind → Stride → Mnemonic
  | copy => .blockCopy
  | search => .blockSearch
  | input => .blockInput
  | output => .blockOutput

/-- What is done with one byte. -/
def step (env : Env) (down : Bool) : BlockKind → Machine → Machine
  | copy => copyByte env down
  | search => searchByte env down
  | input => receiveByte down
  | output => sendByte env down

/-- How the flag is set behind the last byte. -/
def flag : BlockKind → Machine → Machine
  | copy | search => flagBc
  | input | output => flagB

/-- The register that counts the bytes. -/
def counter : BlockKind → Machine → Nat
  | copy | search => (·.registers.bc)
  | input | output => (·.registers.b)

/-- How many values the counter takes. -/
def range : BlockKind → Nat
  | copy | search => 65536
  | input | output => 256

/-- Whether the last byte is found before the counter is used up. -/
def found : BlockKind → Machine → Bool
  | search => (·.flags.z)
  | copy | input | output => fun _ => false

/-- Whether the last byte has been treated. -/
def finished (kind : BlockKind) (m : Machine) : Prop := kind.found m = true ∨ kind.counter m = 0

/-- Some bytes in a row, but none behind one that is found. -/
def run (env : Env) (down : Bool) (kind : BlockKind) : Nat → Machine → Machine
  | 0, m => m
  | n + 1, m =>
    let next := kind.step env down m
    if kind.found next then next else kind.run env down n next

theorem iterate_eq_run (kind : BlockKind) (h : ∀ m, kind.found m = false) (n : Nat)
    (m : Machine) : iterate (kind.step env down) n m = kind.run env down n m := by
  induction n generalizing m with
  | zero => rfl
  | succ n ih => rw [iterate, ih, run, h, if_neg Bool.false_ne_true]

theorem searchBlock_eq_run (n : Nat) (m : Machine) :
    searchBlock env down n m = search.run env down n m := by
  induction n generalizing m with
  | zero => rfl
  | succ n ih =>
      rw [searchBlock, ih, run]
      rfl

/-- Every block instruction treats bytes in a row and then sets its flag. -/
theorem perform_mnemonic (kind : BlockKind) (repeats : Bool) (m : Machine)
    (condition : Option Condition) (modes : List Mode) :
    m.perform env (kind.mnemonic ⟨down, repeats⟩) condition modes =
      .ok (kind.flag (kind.run env down
        (runs ⟨down, repeats⟩ (kind.counter m) kind.range) m)) := by
  cases kind with
  | copy => rw [← iterate_eq_run .copy fun _ => rfl]; rfl
  | search => rw [← searchBlock_eq_run]; rfl
  | input => rw [← iterate_eq_run .input fun _ => rfl]; rfl
  | output => rw [← iterate_eq_run .output fun _ => rfl]; rfl

/-! ## flags, counters and the program counter -/

/-- No byte is treated differently for the flag that was set before it. -/
theorem flag_step_flag (kind : BlockKind) (m : Machine) :
    kind.flag (kind.step env down (kind.flag m)) = kind.flag (kind.step env down m) := by
  cases kind with
  | copy => rfl
  | search => rfl
  | input =>
    show (m.flagB.receiveByte down).flagB = (m.receiveByte down).flagB
    unfold receiveByte
    rw [registers_flagB, video_flagB]
    cases m.video.input? m.registers.c <;> rfl
  | output => rfl

theorem counter_flag (kind : BlockKind) (m : Machine) :
    kind.counter (kind.flag m) = kind.counter m := by
  cases kind <;> rfl

theorem found_flag (kind : BlockKind) (m : Machine) : kind.found (kind.flag m) = kind.found m := by
  cases kind <;> rfl

theorem finished_flag (kind : BlockKind) (m : Machine) :
    kind.finished (kind.flag m) ↔ kind.finished m := by
  rw [finished, finished, found_flag, counter_flag]

/-- Each byte counts the counter down by one. -/
theorem counter_step (kind : BlockKind) (m : Machine) :
    kind.counter (kind.step env down m) =
      (kind.counter m + (kind.range - 1)) % kind.range := by
  cases kind with
  | copy =>
    simp only [step, counter, range, registers_copyByte, Registers.bc_setBc]
    exact Nat.mod_mod _ _
  | search =>
    simp only [step, counter, range, registers_searchByte, Registers.bc_setBc]
    exact Nat.mod_mod _ _
  | input =>
    simp only [step, counter, registers_receiveByte, registers_countB]
    rfl
  | output =>
    simp only [step, counter, registers_sendByte, registers_countB]
    rfl

theorem range_pos (kind : BlockKind) : 0 < kind.range := by cases kind <;> decide

/-- What the counter is when some bytes are left. -/
theorem counter_step_of_left {kind : BlockKind} {left : Nat}
    (counts : kind.counter m = (left + 1) % kind.range) :
    kind.counter (kind.step env down m) = left % kind.range := by
  rw [counter_step, counts, Nat.mod_add_mod, Nat.add_assoc, Nat.add_sub_cancel' kind.range_pos,
    Nat.add_mod_right]

theorem pc_step (kind : BlockKind) (m : Machine) :
    (kind.step env down m).registers.pc = m.registers.pc := by
  cases kind with
  | copy =>
    rw [step, registers_copyByte, Registers.pc_setBc, Registers.pc_setDe, Registers.pc_setHl]
  | search => rw [step, registers_searchByte, Registers.pc_setBc, Registers.pc_setHl]
  | input =>
    rw [step, registers_receiveByte, registers_countB]
    rfl
  | output =>
    rw [step, registers_sendByte, registers_countB]
    rfl

theorem flag_arriveAt (kind : BlockKind) (m : Machine) (address : Option Nat) :
    (kind.flag m).arriveAt address = kind.flag (m.arriveAt address) := by
  cases kind <;> cases address <;> rfl

/-- Who treats a byte is still at the line. -/
theorem step_arriveAt (kind : BlockKind) (m : Machine) (address : Option Nat) :
    (kind.step env down (m.arriveAt address)).arriveAt address =
      kind.step env down (m.arriveAt address) := by
  cases address with
  | none => rfl
  | some address => exact setPc_of_eq (pc_step kind (m.setPc address))

/-! ## the repetition -/

/-- A single form treats one byte and sets the flag. -/
theorem runLine_single {kind : BlockKind} {single : SourceLine}
    (ho : single.operation = some (.mnemonic (kind.mnemonic ⟨down, false⟩))) (m : Machine)
    (address : Option Nat) :
    m.runLine env single address =
      .ok (kind.flag (kind.step env down (m.arriveAt address))) := by
  have plain : ∀ (m : Machine) condition modes,
      m.perform env (kind.mnemonic ⟨down, false⟩) condition modes =
        .ok (kind.flag (kind.step env down m)) := by
    intro m condition modes
    rw [perform_mnemonic, runs_single, run, run, ite_self]
  exact runLine_of_operandless ho plain m address

/-- A repeating form treats as many bytes as the counter tells and sets the flag. -/
theorem runLine_repeating {kind : BlockKind} {line : SourceLine}
    (ho : line.operation = some (.mnemonic (kind.mnemonic ⟨down, true⟩))) (m : Machine)
    (address : Option Nat) :
    m.runLine env line address =
      .ok (kind.flag (kind.run env down
        (blockLength (kind.counter (m.arriveAt address)) kind.range) (m.arriveAt address))) :=
  runLine_of_operandless ho (perform_mnemonic kind true) m address

/-- The single form, repeated from a machine `m` on, treats the bytes that a row treats from a
machine `n` on.  The two machines need not be the same: `m` may have a flag that `n` has not yet. -/
theorem until_run {kind : BlockKind} {single : SourceLine}
    (ho : single.operation = some (.mnemonic (kind.mnemonic ⟨down, false⟩))) (address : Option Nat)
    {count : Nat} (positive : 0 < count) (bound : count ≤ kind.range) {m n : Machine}
    (counts : kind.counter n = count % kind.range) (arrived : n.arriveAt address = n)
    (same : kind.flag (kind.step env down (m.arriveAt address)) =
      kind.flag (kind.step env down n)) :
    Until (fun m => m.runLine env single address) kind.finished m
      (kind.flag (kind.run env down count n)) := by
  induction count generalizing m n with
  | zero => exact absurd positive (Nat.lt_irrefl 0)
  | succ left ih =>
      have taken : m.runLine env single address = .ok (kind.flag (kind.step env down n)) :=
        (runLine_single ho m address).trans (congrArg _ same)
      have counted : kind.counter (kind.step env down n) = left := by
        rw [counter_step_of_left counts, Nat.mod_eq_of_lt bound]
      by_cases isFinished : kind.finished (kind.step env down n)
      case pos =>
          -- With the counter used up, the row has come to its end as well.
          have whole : kind.run env down (left + 1) n = kind.step env down n := by
            rw [run]
            obtain found | usedUp := isFinished
            · exact if_pos found
            · rw [counted.symm.trans usedUp, run, ite_self]
          rw [whole]
          exact .last taken ((finished_flag kind _).mpr isFinished)
      case neg =>
          obtain ⟨missing, more⟩ := not_or.mp isFinished
          rw [run, if_neg missing]
          -- From here on the flag is set in the one machine and not in the other.
          refine .more taken (mt (finished_flag kind _).mp isFinished) (ih ?_ ?_ ?_ ?_ ?_)
          · exact Nat.pos_of_ne_zero (counted ▸ more)
          · exact Nat.le_of_succ_le bound
          · exact counter_step_of_left counts
          · rw [← arrived, step_arriveAt]
          · rw [flag_arriveAt, flag_step_flag, ← arrived, step_arriveAt]

theorem counter_lt {kind : BlockKind} (wf : m.WellFormed) : kind.counter m < kind.range := by
  cases kind with
  | copy => exact wf.registers.bc_lt
  | search => exact wf.registers.bc_lt
  | input => exact wf.registers.b
  | output => exact wf.registers.b

/-- **Repeating block instructions.**  A line with a repeating form, such as `LDIR`, leads to the
very machine that the single form, such as `LDI`, leads to at the same address, done once and then
as long as the counter is not used up (and, in a search, the accumulator has not been found). -/
theorem runLine_eq_until {kind : BlockKind} {line single : SourceLine}
    (hl : line.operation = some (.mnemonic (kind.mnemonic ⟨down, true⟩)))
    (hs : single.operation = some (.mnemonic (kind.mnemonic ⟨down, false⟩)))
    (wf : m.WellFormed) (address : Option Nat) :
    ∃ n, m.runLine env line address = .ok n ∧
      ∀ l, Until (fun m => m.runLine env single address) kind.finished m l ↔ l = n := by
  refine ⟨_, runLine_repeating hl m address, fun l => ?_⟩
  have counter : kind.counter (m.arriveAt address) < kind.range := counter_lt (wf.arriveAt address)
  have ends : Until (fun m => m.runLine env single address) kind.finished m _ :=
    until_run hs address (blockLength_pos kind.range_pos) (blockLength_le counter)
      (blockLength_mod counter).symm (arriveAt_arriveAt address) rfl
  constructor
  · exact fun other => other.unique ends
  · rintro rfl
    exact ends

theorem runLine_eq_until_second :
    ∃ n : Machine, searching.runLine bareEnv (plainLine (.blockSearch ⟨false, true⟩) "")
        (some 0x4000) = .ok n ∧
      n.registers.hl = 0xC002 ∧
      ∀ l, Until (fun m => m.runLine bareEnv (plainLine (.blockSearch ⟨false, false⟩) "")
        (some 0x4000)) search.finished searching l ↔ l = n := by
  have repeating : (plainLine (.blockSearch ⟨false, true⟩) "").operation =
      some (.mnemonic (search.mnemonic ⟨false, true⟩)) := rfl
  have single : (plainLine (.blockSearch ⟨false, false⟩) "").operation =
      some (.mnemonic (search.mnemonic ⟨false, false⟩)) := rfl
  obtain ⟨n, ran, same⟩ := runLine_eq_until repeating single wellFormed_searching (some 0x4000)
  refine ⟨n, ran, ?_, same⟩
  have advanced : (searching.runLine bareEnv (plainLine (.blockSearch ⟨false, true⟩) "")
      (some 0x4000)).map (·.registers.hl) = .ok 0xC002 := by decide +kernel
  rw [ran] at advanced
  exact Except.ok.inj advanced

end BlockKind

end Machine

end Z80Workbench
