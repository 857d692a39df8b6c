import Z80Workbench.Proofs.Except
import Z80Workbench.Proofs.Machine.Transfer
import Z80Workbench.Walk.Step

/-!
# Z80Workbench.Proofs.Walk.Moves

The ways in which a step can lead on.  Each is a constructor of one relation, with all that the
step has found out on its way; what holds of steps is shown by its cases.
-/

namespace Z80Workbench

/-- A control transfer that a walk keeps account of. -/
inductive Transfer where
  | call | ret | jump
  deriving Repr, DecidableEq

/-- The control transfer on a line.  A counted branch is none. -/
def CodeLine.transfer? (line : CodeLine) : Option Transfer :=
  match line.instruction.operation with
  | .mnemonic .call | .mnemonic .rst => some .call
  | .mnemonic .ret | .mnemonic .reti | .mnemonic .retn => some .ret
  | .mnemonic .jp | .mnemonic .jr => some .jump
  | _ => none

/-- How many bytes a call takes: a restart one, and any other call three. -/
def CodeLine.callLength (line : CodeLine) : Nat :=
  match line.instruction.operation with
  | .mnemonic .rst => 1
  | _ => 3

@[simp] theorem Move.machine_goto (machine : Machine) (returns : List Nat) (line : Nat) :
    (goto machine returns line).machine = machine := rfl

@[simp] theorem Move.machine_leave (machine : Machine) (returns : List Nat) :
    (leave machine returns).machine = machine := by
  cases returns <;> rfl

namespace Program

variable {p : Program} {number : Nat} {line : CodeLine} {m : Machine}

/-! ## what a transfer does to the machine -/

/-- A call from a line: the machine comes to the line, and calls what the operand says. -/
theorem executeLine_callLength (h : line.transfer? = some .call)
    (taken : m.flags.allow line.instruction.condition = true) :
    p.executeLine line m =
      .ok ((m.arriveAt line.address).call p.env line.callLength (targetMode? line)) := by
  have flags : (m.arriveAt line.address).flags.allow line.instruction.condition = true := by
    rwa [Machine.flags_arriveAt]
  have last : (line.instruction.operands.map (·.mode)).getLast? = targetMode? line :=
    List.getLast?_map
  show (m.arriveAt line.address).execute p.env line.instruction = _
  unfold CodeLine.transfer? at h
  split at h
  case h_1 operation =>
      rw [Machine.execute, CodeLine.callLength, operation]
      simp only [Machine.perform, flags, if_true, last]
  case h_2 operation =>
      rw [Machine.execute, CodeLine.callLength, operation]
      simp only [Machine.perform, last]
  all_goals cases h

theorem executeLine_call (h : line.transfer? = some .call)
    (taken : m.flags.allow line.instruction.condition = true) :
    ∃ length, p.executeLine line m =
      .ok ((m.arriveAt line.address).call p.env length (targetMode? line)) :=
  ⟨_, executeLine_callLength h taken⟩

/-- A return from a line: the machine comes to the line, and pops the program counter. -/
theorem executeLine_ret (h : line.transfer? = some .ret)
    (taken : m.flags.allow line.instruction.condition = true) :
    p.executeLine line m = .ok ((m.arriveAt line.address).popPc p.env) := by
  have flags : (m.arriveAt line.address).flags.allow line.instruction.condition = true := by
    rwa [Machine.flags_arriveAt]
  show (m.arriveAt line.address).execute p.env line.instruction = _
  unfold CodeLine.transfer? at h
  split at h
  case h_3 operation =>
      rw [Machine.execute, operation]
      simp only [Machine.perform, flags, if_true]
  case h_4 operation | h_5 operation =>
      rw [Machine.execute, operation]
      rfl
  all_goals cases h

/-- A jump from a line: the machine comes to the line, and goes where the operand says. -/
theorem executeLine_jump (h : line.transfer? = some .jump)
    (taken : m.flags.allow line.instruction.condition = true) :
    p.executeLine line m = .ok ((m.arriveAt line.address).jump p.env (targetMode? line)) := by
  have flags : (m.arriveAt line.address).flags.allow line.instruction.condition = true := by
    rwa [Machine.flags_arriveAt]
  have last : (line.instruction.operands.map (·.mode)).getLast? = targetMode? line :=
    List.getLast?_map
  show (m.arriveAt line.address).execute p.env line.instruction = _
  unfold CodeLine.transfer? at h
  split at h
  case h_6 operation | h_7 operation =>
      rw [Machine.execute, operation]
      simp only [Machine.perform, flags, if_true, last]
  all_goals cases h

/-! ## the moves -/

/-- What a step from a line leads to.  A transfer may not be taken; a call enters a line or is
done at once; a return leaves the routine; a jump goes to a line, or returns from the firmware,
or leads nowhere that a walk could follow; every other line is executed and passed. -/
inductive Stepped (p : Program) (tailCalls : Bool) (number : Nat) (line : CodeLine) (m : Machine)
    (returns : List Nat) : Move → Prop where
  | untaken {transfer : Transfer} : line.transfer? = some transfer →
      m.flags.allow line.instruction.condition = false →
      Stepped p tailCalls number line m returns (.goto m returns (number + 1))
  | entered {called : Machine} {target : Nat} : line.transfer? = some .call →
      m.flags.allow line.instruction.condition = true → p.executeLine line m = .ok called →
      (p.destination m (targetMode? line)).line = some target →
      Stepped p tailCalls number line m returns (.goto called ((number + 1) :: returns) target)
  | calledAtOnce {called : Machine} : line.transfer? = some .call →
      m.flags.allow line.instruction.condition = true → p.executeLine line m = .ok called →
      (p.destination m (targetMode? line)).line = none →
      Stepped p tailCalls number line m returns
        (.goto (called.popPc p.env) returns (number + 1))
  | returned {left : Machine} : line.transfer? = some .ret →
      m.flags.allow line.instruction.condition = true → p.executeLine line m = .ok left →
      Stepped p tailCalls number line m returns (.leave left returns)
  | jumped {there : Machine} {target : Nat} : line.transfer? = some .jump →
      m.flags.allow line.instruction.condition = true → p.executeLine line m = .ok there →
      (p.destination m (targetMode? line)).line = some target →
      Stepped p tailCalls number line m returns (.goto there returns target)
  | tailCalled {there : Machine} : line.transfer? = some .jump →
      m.flags.allow line.instruction.condition = true → p.executeLine line m = .ok there →
      (p.destination m (targetMode? line)).line = none → tailCalls = true →
      p.isFirmware (p.destination m (targetMode? line)) = true →
      Stepped p tailCalls number line m returns (.leave (there.popPc p.env) returns)
  | strayed {there : Machine} : line.transfer? = some .jump →
      m.flags.allow line.instruction.condition = true → p.executeLine line m = .ok there →
      (p.destination m (targetMode? line)).line = none →
      (tailCalls && p.isFirmware (p.destination m (targetMode? line))) = false →
      Stepped p tailCalls number line m returns (.goto there returns (number + 1))
  | counted {left : Machine} : line.instruction.operation = .mnemonic .djnz →
      p.executeLine line m = .ok left →
      Stepped p tailCalls number line m returns (.goto left returns
        (if left.registers.b = 0 then number + 1
          else (p.destination left (targetMode? line)).line.getD (number + 1)))
  | passed {after : Machine} : line.transfer? = none →
      line.instruction.operation ≠ .mnemonic .djnz → p.executeLine line m = .ok after →
      Stepped p tailCalls number line m returns (.goto after returns (number + 1))

variable {tailCalls : Bool} {returns : List Nat} {move : Move}

theorem stepped_of_stepCall (transfer : line.transfer? = some .call)
    (h : p.stepCall number line m returns = .ok move) :
    p.Stepped tailCalls number line m returns move := by
  unfold stepCall at h
  split at h
  case isTrue taken =>
      obtain ⟨called, hx, done⟩ := bind_eq_ok.mp h
      cases hd : (p.destination m (targetMode? line)).line with
      | some target =>
          simp only [hd] at done
          cases done
          exact .entered transfer taken hx hd
      | none =>
          simp only [hd] at done
          cases done
          exact .calledAtOnce transfer taken hx hd
  case isFalse untaken =>
      cases h
      exact .untaken transfer (Bool.not_eq_true _ ▸ untaken)

theorem stepped_of_stepReturn (transfer : line.transfer? = some .ret)
    (h : p.stepReturn number line m returns = .ok move) :
    p.Stepped tailCalls number line m returns move := by
  unfold stepReturn at h
  split at h
  case isTrue taken =>
      obtain ⟨left, hx, done⟩ := bind_eq_ok.mp h
      cases done
      exact .returned transfer taken hx
  case isFalse untaken =>
      cases h
      exact .untaken transfer (Bool.not_eq_true _ ▸ untaken)

theorem stepped_of_stepJump (transfer : line.transfer? = some .jump)
    (h : p.stepJump tailCalls number line m returns = .ok move) :
    p.Stepped tailCalls number line m returns move := by
  unfold stepJump at h
  split at h
  case isTrue taken =>
      obtain ⟨there, hx, done⟩ := bind_eq_ok.mp h
      cases hd : (p.destination m (targetMode? line)).line with
      | some target =>
          simp only [hd] at done
          cases done
          exact .jumped transfer taken hx hd
      | none =>
          simp only [hd] at done
          cases hf : tailCalls && p.isFirmware (p.destination m (targetMode? line)) with
          | true =>
              obtain ⟨follows, firmware⟩ := Bool.and_eq_true_iff.mp hf
              rw [if_pos hf] at done
              cases done
              exact .tailCalled transfer taken hx hd follows firmware
          | false =>
              rw [if_neg (Bool.eq_false_iff.mp hf)] at done
              cases done
              exact .strayed transfer taken hx hd hf
  case isFalse untaken =>
      cases h
      exact .untaken transfer (Bool.not_eq_true _ ▸ untaken)

theorem stepped_of_stepCount (counts : line.instruction.operation = .mnemonic .djnz)
    (h : p.stepCount number line m returns = .ok move) :
    p.Stepped tailCalls number line m returns move := by
  obtain ⟨left, hx, done⟩ := bind_eq_ok.mp h
  have goes : p.Stepped tailCalls number line m returns _ := .counted counts hx
  split at done
  case isTrue hb =>
      cases done
      rwa [if_pos hb] at goes
  case isFalse hb =>
      cases done
      rwa [if_neg hb] at goes

/-- A step that succeeds leads on in one of these ways. -/
theorem stepped_of_step (h : p.step tailCalls number line m returns = .ok move) :
    p.Stepped tailCalls number line m returns move := by
  unfold step at h
  split at h
  case h_1 operation | h_2 operation =>
      exact stepped_of_stepCall (by rw [CodeLine.transfer?, operation]) h
  case h_3 operation | h_4 operation | h_5 operation =>
      exact stepped_of_stepReturn (by rw [CodeLine.transfer?, operation]) h
  case h_6 operation | h_7 operation =>
      exact stepped_of_stepJump (by rw [CodeLine.transfer?, operation]) h
  case h_8 operation => exact stepped_of_stepCount operation h
  case h_9 call rst ret reti retn jp jr djnz =>
      obtain ⟨after, hx, done⟩ := bind_eq_ok.mp h
      cases done
      refine .passed ?_ djnz hx
      unfold CodeLine.transfer?
      split <;> first | rfl | contradiction

/-- A call is not taken, or the machine calls, and the walk enters a line or does the call at
once. -/
theorem Stepped.of_call (h : p.Stepped tailCalls number line m returns move)
    (call : line.transfer? = some .call) :
    m.flags.allow line.instruction.condition = false ∧ move = .goto m returns (number + 1) ∨
      m.flags.allow line.instruction.condition = true ∧
        ∃ called, p.executeLine line m = .ok called ∧
          ((∃ target, (p.destination m (targetMode? line)).line = some target ∧
              move = .goto called ((number + 1) :: returns) target) ∨
            (p.destination m (targetMode? line)).line = none ∧
              move = .goto (called.popPc p.env) returns (number + 1)) := by
  cases h with
  | untaken _ untaken => exact .inl ⟨untaken, rfl⟩
  | entered _ taken hx hd => exact .inr ⟨taken, _, hx, .inl ⟨_, hd, rfl⟩⟩
  | calledAtOnce _ taken hx hd => exact .inr ⟨taken, _, hx, .inr ⟨hd, rfl⟩⟩
  | returned other | jumped other | tailCalled other | strayed other | passed other =>
      rw [other] at call
      cases call
  | counted counts => rw [CodeLine.transfer?, counts] at call; cases call

/-- A step from a call is that of a call. -/
theorem step_of_call (h : line.transfer? = some .call) :
    p.step tailCalls number line m returns = p.stepCall number line m returns := by
  unfold CodeLine.transfer? at h
  split at h
  case h_1 operation | h_2 operation => rw [step, operation]
  all_goals cases h

end Program

end Z80Workbench
