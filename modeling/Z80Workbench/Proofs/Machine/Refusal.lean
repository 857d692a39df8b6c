import Z80Workbench.Machine.Execute

/-!
# Z80Workbench.Proofs.Machine.Refusal

Instructions without a next state.  The shadow of accumulator and flags can be read but not
written, and the pair itself is no part of the register file.  A pop into the former, and an
exchange of either with the top of the stack, are refused; whatever else stands on a line, the
machine has a next state.
-/

namespace Z80Workbench

/-- The register that a mnemonic needs for its operands but cannot have: by it the instruction is
refused. -/
def Mnemonic.refusal? (mnemonic : Mnemonic) (modes : List Mode) : Option UnknownRegister :=
  match mnemonic, modes with
  | .pop, .reg16 .afShadow :: _ => some ⟨"AF'"⟩
  | .ex, [.indirect .sp, .reg16 .afShadow] => some ⟨"AF'"⟩
  | .ex, [.indirect .sp, .reg16 .af] => some ⟨"AF"⟩
  | _, _ => none

/-- The register by which an instruction is refused. -/
def Instruction.refusal? (i : Instruction) : Option UnknownRegister :=
  match i.operation with
  | .mnemonic mnemonic => mnemonic.refusal? (i.operands.map Operand.mode)
  | _ => none

/-- The register by which the instruction on a line of text is refused. -/
def Source.refusal? (text : String) : Option UnknownRegister :=
  ((parseLine? 1 text).bind SourceLine.instruction?).bind Instruction.refusal?

/-- The number of a line is no part of its instruction. -/
theorem Source.instruction?_parseLine? (number : Nat) (text : String) :
    (parseLine? number text).bind SourceLine.instruction? =
      (parseLine? 1 text).bind SourceLine.instruction? := by
  unfold parseLine?
  split <;> rfl

/-- An instruction that is refused stands on a line that can be executed. -/
theorem SourceLine.isExecutable_of_refusal {line : SourceLine} {i : Instruction}
    {e : UnknownRegister} (hi : line.instruction? = some i) (hr : i.refusal? = some e) :
    line.isExecutable = true := by
  obtain ⟨operation, ho, rfl⟩ := Option.map_eq_some_iff.mp hi
  rw [SourceLine.isExecutable, ho]
  cases operation with
  | mnemonic | unknown => rfl
  | directive => cases hr

namespace Machine

variable {env : Env} {m : Machine} {e : UnknownRegister}

/-! ## pops and exchanges -/

/-- Only the shadow of accumulator and flags cannot be written. -/
theorem setPair_eq_error_iff {p : Pair} {value : Nat} :
    m.setPair p value = .error e ↔ p = .afShadow ∧ e = ⟨"AF'"⟩ := by
  cases p with
  | afShadow =>
      have refused : m.setPair .afShadow value = .error ⟨"AF'"⟩ := rfl
      simp [refused, eq_comm]
  | bc | de | hl | sp | af | index x => simp [setPair, Registers.setPair?]

/-- The top of the stack can be exchanged with every pair but accumulator and flags and their
shadow. -/
theorem exchangeTop_eq_error_iff {p : Pair} :
    m.exchangeTop env p = .error e ↔
      p = .afShadow ∧ e = ⟨"AF'"⟩ ∨ p = .af ∧ e = ⟨"AF"⟩ := by
  rw [exchangeTop]
  split
  case isTrue hp =>
      rw [hp]
      have named : Pair.name .af = "AF" := rfl
      simp [named, eq_comm]
  case isFalse hp => simp [setPair_eq_error_iff, hp]

/-- An exchange is refused by its second operand only, and only with the top of the stack. -/
theorem exchange_eq_error_iff {first second : Mode} :
    m.exchange env first second = .error e ↔
      ∃ p, first = .indirect .sp ∧ second = .reg16 p ∧ m.exchangeTop env p = .error e := by
  unfold exchange
  split
  case h_1 hf hs | h_2 hf hs | h_3 hf hs =>
      refine iff_of_false nofun ?_
      rintro ⟨p, rfl, -, -⟩
      cases hf
  case h_4 =>
      split
      case h_1 p => simp
      case h_2 other =>
          refine iff_of_false nofun ?_
          rintro ⟨p, hf, hs, -⟩
          exact other p hf hs

/-! ## all instructions -/

variable {condition : Option Condition} {modes : List Mode}

theorem perform_pop_eq_error_iff :
    m.perform env .pop condition modes = .error e ↔ Mnemonic.refusal? .pop modes = some e := by
  cases modes with
  | nil => simp [perform, Mnemonic.refusal?]
  | cons mode rest =>
      cases mode with
      | reg16 p =>
          have hp : m.perform env .pop condition (.reg16 p :: rest) =
              m.drop.setPair p (m.top env) := rfl
          rw [hp, setPair_eq_error_iff]
          cases p <;> simp [Mnemonic.refusal?, eq_comm]
      | reg8 | immediate | indirect | indexed | absolute => simp [perform, Mnemonic.refusal?]

theorem perform_ex_eq_error_iff :
    m.perform env .ex condition modes = .error e ↔ Mnemonic.refusal? .ex modes = some e := by
  match modes with
  | [] | [_] | _ :: _ :: _ :: _ => simp [perform, Mnemonic.refusal?]
  | [first, second] =>
      have hx : m.perform env .ex condition [first, second] = m.exchange env first second := rfl
      rw [hx, exchange_eq_error_iff]
      constructor
      · rintro ⟨p, rfl, rfl, ht⟩
        obtain ⟨rfl, rfl⟩ | ⟨rfl, rfl⟩ := exchangeTop_eq_error_iff.mp ht <;> rfl
      · intro hr
        unfold Mnemonic.refusal? at hr
        split at hr
        case h_1 hm _ => cases hm
        case h_2 hm =>
            cases hm
            cases hr
            exact ⟨.afShadow, rfl, rfl, exchangeTop_eq_error_iff.mpr (.inl ⟨rfl, rfl⟩)⟩
        case h_3 hm =>
            cases hm
            cases hr
            exact ⟨.af, rfl, rfl, exchangeTop_eq_error_iff.mpr (.inr ⟨rfl, rfl⟩)⟩
        case h_4 => cases hr

/-- Every other mnemonic takes the machine to a next state. -/
theorem exists_perform (env : Env) (m : Machine) {mnemonic : Mnemonic} (pop : mnemonic ≠ .pop)
    (ex : mnemonic ≠ .ex) (condition : Option Condition) (modes : List Mode) :
    ∃ n, m.perform env mnemonic condition modes = .ok n := by
  unfold perform
  split
  case h_3 => contradiction
  case h_4 => contradiction
  all_goals exact ⟨_, rfl⟩

/-- A mnemonic fails exactly if it is refused. -/
theorem perform_eq_error_iff {mnemonic : Mnemonic} :
    m.perform env mnemonic condition modes = .error e ↔ mnemonic.refusal? modes = some e := by
  by_cases pop : mnemonic = .pop
  · rw [pop, perform_pop_eq_error_iff]
  by_cases ex : mnemonic = .ex
  · rw [ex, perform_ex_eq_error_iff]
  obtain ⟨n, hn⟩ := exists_perform env m pop ex condition modes
  rw [hn]
  refine iff_of_false nofun ?_
  unfold Mnemonic.refusal?
  split <;> simp_all

/-- An instruction has no next state exactly if it is refused. -/
theorem execute_eq_error_iff {i : Instruction} :
    m.execute env i = .error e ↔ i.refusal? = some e := by
  unfold execute Instruction.refusal?
  cases i.operation with
  | mnemonic mnemonic => exact perform_eq_error_iff
  | directive d | unknown word => simp

/-- A line fails exactly if its instruction is refused, wherever it stands. -/
theorem runLine_eq_error_iff {line : SourceLine} {address : Option Nat} :
    m.runLine env line address = .error e ↔
      line.instruction?.bind Instruction.refusal? = some e := by
  unfold runLine
  split
  case h_1 i _ hi => rw [executeAt, execute_eq_error_iff, hi, Option.bind_some]
  case h_2 other =>
      refine iff_of_false nofun fun hr => ?_
      obtain ⟨i, hi, hr⟩ := Option.bind_eq_some_iff.mp hr
      exact other i (SourceLine.isExecutable_of_refusal hi hr) hi

/-- A text fails exactly if the instruction on it is refused. -/
theorem runText_eq_error_iff {text : String} {address : Option Nat} :
    m.runText env text address = .error e ↔ Source.refusal? text = some e := by
  unfold runText Source.refusal?
  cases Source.parseLine? 1 text with
  | none => simp
  | some line => exact runLine_eq_error_iff

example : Source.refusal? "LOOP: EX (SP), AF ; no such exchange" = some ⟨"AF"⟩ := by
  decide +kernel

end Machine

end Z80Workbench
