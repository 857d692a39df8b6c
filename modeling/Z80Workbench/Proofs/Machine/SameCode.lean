import Z80Workbench.Proofs.Code.RoundTrip
import Z80Workbench.Proofs.Machine.Transfer

/-!
# Z80Workbench.Proofs.Machine.SameCode

Instructions with the same code.  Whatever their spelling, they do the same at an address, as both
do what their code reads back as.  The parentheses in `EX (SP),(HL)` and its like are the only
exception: the code is that of an exchange with the pair, but the instruction does nothing.
-/

namespace Z80Workbench

open Machine (Env)

/-- Whether the instruction is an exchange with the top of the stack that has its pair in
parentheses. -/
def Instruction.isPointedExchange (i : Instruction) : Bool :=
  i.command?.any (·.pointedPair?.isSome)

namespace Command

variable {env : Env} {c : Command} {p : Pair}

/-- An exchange with a pair in parentheses does nothing. -/
theorem run_of_pointedPair (h : c.pointedPair? = some p) (m : Machine) :
    c.run env m = .ok m := by
  unfold pointedPair? at h
  split at h
  · rfl
  · rename_i x _
    cases x <;> rfl
  · contradiction

theorem straight_of_pointedPair (h : c.pointedPair? = some p) :
    c.straight = ⟨.ex, c.condition, [.indirect .sp, .reg16 p]⟩ := by
  rw [straight, h]

theorem straight_eq_self (h : c.pointedPair? = none) : c.straight = c := by
  rw [straight, h]

/-- The pair in the parentheses is HL or an index register. -/
theorem pointedPair_cases (h : c.pointedPair? = some p) : p = .hl ∨ ∃ x, p = .index x := by
  unfold pointedPair? at h
  split at h
  · cases h
    exact .inl rfl
  · rename_i x _
    cases h
    exact .inr ⟨x, rfl⟩
  · contradiction

/-- An exchange of the pair itself writes the stack, so it does something where memory is
empty. -/
theorem run_straight_ne (h : c.pointedPair? = some p) {m : Machine} (hm : m.memory = ∅) :
    c.straight.run env m ≠ .ok m := by
  have written : ∀ n, m.exchangeTop env p = .ok n →
      n.memory.get? (m.registers.sp + 1) ≠ m.memory.get? (m.registers.sp + 1) := by
    intro n hn
    obtain rfl | ⟨x, rfl⟩ := pointedPair_cases h
    · cases hn
      simp [Machine.storeWord, Machine.store, Memory.get?_set, hm]
    · cases hn
      simp [Machine.storeWord, Machine.store, Memory.get?_set, hm]
  rw [straight_of_pointedPair h]
  intro hr
  refine written m ?_ rfl
  obtain rfl | ⟨x, rfl⟩ := pointedPair_cases h <;> exact hr

/-- Of two commands that are the same without parentheses, but only one of which has them, the
other one does something in a machine whose memory is empty. -/
theorem run_ne_of_pointedPair {d : Command} (h : c.pointedPair? = some p)
    (hd : d.pointedPair? = none) (same : ∀ m, c.straight.run env m = d.straight.run env m)
    {m : Machine} (hm : m.memory = ∅) : c.run env m ≠ d.run env m := by
  rw [run_of_pointedPair h, ← straight_eq_self hd, ← same m]
  exact (run_straight_ne h hm).symm

end Command

namespace Machine

variable {env : Env} {address : Nat} {line line' : SourceLine} {i i' : Instruction}
  {bytes : List Nat}

/-- A line with an instruction does at an address what its command does there. -/
theorem runLine_of_command {c : Command} (hl : line.instruction? = some i)
    (hc : i.command? = some c) (m : Machine) :
    m.runLine env line (some address) = c.run env (m.setPc address) := by
  obtain ⟨operation, ho, rfl⟩ := Option.map_eq_some_iff.mp hl
  cases operation with
  | mnemonic mnemonic =>
      cases hc
      exact runLine_of_mnemonic hl rfl m (some address)
  | directive d => cases hc
  | unknown word => cases hc

/-- **Same code, same effect**, for any two lines whose instructions have the same code at an
address: they do the same from every state if and only if both or none of them are exchanges with
a pair in parentheses.  Such an exchange only sets the program counter. -/
theorem runLine_eq_iff_of_encode (hl : line.instruction? = some i)
    (hl' : line'.instruction? = some i')
    (he : i.encode ⟨env.scope, some address, false⟩ = .ok bytes)
    (he' : i'.encode ⟨env.scope, some address, false⟩ = .ok bytes) :
    ((∀ m : Machine,
        m.runLine env line (some address) = m.runLine env line' (some address)) ↔
      i.isPointedExchange = i'.isPointedExchange) ∧
    (i.isPointedExchange = true →
      ∀ m : Machine, m.runLine env line (some address) = .ok (m.setPc address)) := by
  have filled : Context.Matches ⟨env.scope, some address, false⟩ env address := ⟨rfl, rfl, rfl⟩
  obtain ⟨c, hc, d, hd, hs⟩ :
      ∃ c, i.command? = some c ∧ ReadsBack _ env address c.straight bytes :=
    Instruction.decode_encode he
  obtain ⟨c', hc', d', hd', hs'⟩ :
      ∃ c, i'.command? = some c ∧ ReadsBack _ env address c.straight bytes :=
    Instruction.decode_encode he'
  have read : d = d' := congrArg Prod.fst (Option.some.inj ((hd []).symm.trans (hd' [])))
  have same : ∀ m, c.straight.run env m = c'.straight.run env m := by
    intro m
    rw [← hs filled, ← hs' filled, read]
  have pointed : i.isPointedExchange = c.pointedPair?.isSome := by
    rw [Instruction.isPointedExchange, hc]
    rfl
  have pointed' : i'.isPointedExchange = c'.pointedPair?.isSome := by
    rw [Instruction.isPointedExchange, hc']
    rfl
  rw [pointed, pointed']
  simp only [runLine_of_command hl hc, runLine_of_command hl' hc']
  cases hp : c.pointedPair? with
  | none =>
      refine ⟨?_, nofun⟩
      cases hp' : c'.pointedPair? with
      | none =>
          refine iff_of_true (fun m => ?_) rfl
          rw [← Command.straight_eq_self hp, ← Command.straight_eq_self hp', same]
      | some p =>
          refine iff_of_false (fun h => ?_) nofun
          exact Command.run_ne_of_pointedPair hp' hp (fun m => (same m).symm) rfl
            (h (initial {})).symm
  | some p =>
      refine ⟨?_, fun _ m => Command.run_of_pointedPair hp _⟩
      cases hp' : c'.pointedPair? with
      | none =>
          refine iff_of_false (fun h => ?_) nofun
          exact Command.run_ne_of_pointedPair hp hp' same rfl (h (initial {}))
      | some p' =>
          refine iff_of_true (fun m => ?_) rfl
          rw [Command.run_of_pointedPair hp, Command.run_of_pointedPair hp']

/-- A line with an instruction and nothing else. -/
def plainLine (mnemonic : Mnemonic) (args : String) : SourceLine :=
  ⟨1, mnemonic.name ++ " " ++ args, [], some (.mnemonic mnemonic), args⟩

/-- An environment without symbols and without an image. -/
def bareEnv : Env := ⟨{ symbols := ∅, fallback := Firmware.address? }, ∅⟩

theorem runLine_eq_iff_of_encode_add :
    (Instruction.ofArgs (.mnemonic (.alu .add)) "A,$102".toList).encode
        ⟨bareEnv.scope, some 0x4000, false⟩ = .ok [0xC6, 0x02] ∧
      (Instruction.ofArgs (.mnemonic (.alu .add)) "1+1".toList).encode
        ⟨bareEnv.scope, some 0x4000, false⟩ = .ok [0xC6, 0x02] ∧
      ∀ m : Machine, m.runLine bareEnv (plainLine (.alu .add) "A,$102") (some 0x4000) =
        m.runLine bareEnv (plainLine (.alu .add) "1+1") (some 0x4000) := by
  have wide : (Instruction.ofArgs (.mnemonic (.alu .add)) "A,$102".toList).encode
      ⟨bareEnv.scope, some 0x4000, false⟩ = .ok [0xC6, 0x02] := by decide +kernel
  have sum : (Instruction.ofArgs (.mnemonic (.alu .add)) "1+1".toList).encode
      ⟨bareEnv.scope, some 0x4000, false⟩ = .ok [0xC6, 0x02] := by decide +kernel
  exact ⟨wide, sum, (runLine_eq_iff_of_encode rfl rfl wide sum).1.mpr (by decide +kernel)⟩

/-- The exchange with HL and the one with HL in parentheses have the same code, but differ. -/
theorem runLine_parentheses_differ :
    (Instruction.ofArgs (.mnemonic .ex) "(SP),(HL)".toList).encode
        ⟨bareEnv.scope, some 0x4000, false⟩ = .ok [0xE3] ∧
      (Instruction.ofArgs (.mnemonic .ex) "(SP),HL".toList).encode
        ⟨bareEnv.scope, some 0x4000, false⟩ = .ok [0xE3] ∧
      ((initial {}).setHl 0x1234).runLine bareEnv (plainLine .ex "(SP),(HL)") (some 0x4000) ≠
        ((initial {}).setHl 0x1234).runLine bareEnv (plainLine .ex "(SP),HL") (some 0x4000) := by
  refine ⟨by decide +kernel, by decide +kernel, fun h => ?_⟩
  have hl := congrArg (Except.map fun m : Machine => m.registers.hl) h
  exact absurd hl (by decide +kernel)

end Machine

end Z80Workbench
