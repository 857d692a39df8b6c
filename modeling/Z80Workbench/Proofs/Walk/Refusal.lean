import Z80Workbench.Proofs.Except
import Z80Workbench.Proofs.Machine.Refusal
import Z80Workbench.Proofs.Walk.CountedLoop

/-!
# Z80Workbench.Proofs.Walk.Refusal

Runs that do not end with an outcome.  A step from a line fails exactly if the machine refuses the
instruction there.  So a run of a program fails only at a line whose text is refused; a program
without such lines always comes to an outcome.
-/

namespace Z80Workbench

namespace Program

variable {p : Program} {m : Machine} {e : UnknownRegister}

/-! ## one step -/

variable {line : CodeLine} {number : Nat} {returns : List Nat}

theorem executeLine_of_stepCall (h : p.stepCall number line m returns = .error e) :
    p.executeLine line m = .error e := by
  unfold stepCall at h
  split at h
  case isTrue =>
      obtain failed | ⟨called, -, done⟩ := bind_eq_error.mp h
      · exact failed
      · cases done
  case isFalse => cases h

theorem executeLine_of_stepReturn (h : p.stepReturn number line m returns = .error e) :
    p.executeLine line m = .error e := by
  unfold stepReturn at h
  split at h
  case isTrue =>
      obtain failed | ⟨returned, -, done⟩ := bind_eq_error.mp h
      · exact failed
      · cases done
  case isFalse => cases h

theorem executeLine_of_stepJump {tailCalls : Bool}
    (h : p.stepJump tailCalls number line m returns = .error e) :
    p.executeLine line m = .error e := by
  unfold stepJump at h
  split at h
  case isTrue =>
      obtain failed | ⟨jumped, -, done⟩ := bind_eq_error.mp h
      · exact failed
      · cases done
  case isFalse => cases h

theorem executeLine_of_stepCount (h : p.stepCount number line m returns = .error e) :
    p.executeLine line m = .error e := by
  obtain failed | ⟨counted, -, done⟩ := bind_eq_error.mp h
  · exact failed
  · split at done <;> cases done

/-- A step fails exactly if the instruction of its line is refused. -/
theorem step_eq_error_iff {tailCalls : Bool} :
    p.step tailCalls number line m returns = .error e ↔ line.instruction.refusal? = some e := by
  have executed : p.executeLine line m = .error e ↔ line.instruction.refusal? = some e :=
    Machine.execute_eq_error_iff
  unfold step
  constructor
  · intro h
    rw [← executed]
    split at h
    case h_1 | h_2 => exact executeLine_of_stepCall h
    case h_3 | h_4 | h_5 => exact executeLine_of_stepReturn h
    case h_6 | h_7 => exact executeLine_of_stepJump h
    case h_8 => exact executeLine_of_stepCount h
    case h_9 =>
        obtain failed | ⟨_, -, done⟩ := bind_eq_error.mp h
        · exact failed
        · cases done
  · -- no control transfer is refused, so that the instruction is executed and nothing else
    intro refused
    split
    case h_9 => exact bind_eq_error.mpr (.inl (executed.mpr refused))
    all_goals
      rename_i operation
      simp [Instruction.refusal?, operation, Mnemonic.refusal?] at refused

/-! ## runs -/

/-- A line of the program is refused. -/
def Refuses (p : Program) (e : UnknownRegister) : Prop :=
  ∃ number line, p.line? number = some line ∧ line.instruction.refusal? = some e

theorem refuses_of_step {tailCalls : Bool} {start : Nat}
    (hx : p.executable? start = some (number, line))
    (hs : p.step tailCalls number line m returns = .error e) : p.Refuses e :=
  ⟨number, line, line?_of_executable hx, step_eq_error_iff.mp hs⟩

/-- A walk fails only at a line that is refused. -/
theorem refuses_of_walk {control : Control} {remaining : Nat} {w : Walker}
    (h : p.walk control remaining w = .error e) : p.Refuses e := by
  induction remaining generalizing w with
  | zero =>
      unfold walk at h
      split at h
      · cases h
      · split at h <;> cases h
  | succ remaining ih =>
      unfold walk at h
      split at h
      case h_1 => cases h
      case h_2 number line hx =>
          split at h
          · cases h
          dsimp only at h
          split at h
          · cases h
          split at h
          case h_1 hs =>
              cases h
              exact refuses_of_step hx hs
          case h_2 => cases h
          case h_3 => exact ih h

/-- A walk through a counted loop fails only at a line that is refused. -/
theorem refuses_of_walkLoop {cancelled : Bool} {remaining : Nat} {loop : CountedLoop} {w : Walker}
    (h : p.walkLoop cancelled remaining loop w = .error e) : p.Refuses e := by
  induction remaining generalizing loop w with
  | zero =>
      unfold walkLoop at h
      split at h
      · cases h
      · split at h <;> cases h
  | succ remaining ih =>
      unfold walkLoop at h
      split at h
      case h_1 => cases h
      case h_2 number line hx =>
          split at h
          · cases h
          dsimp only at h
          split at h
          · split at h
            · cases h
            · exact ih h
          split at h
          case h_1 hs =>
              cases h
              exact refuses_of_step hx hs
          case h_2 => cases h
          case h_3 => exact ih h

theorem refuses_of_runSubroutine {start : Start} {limit : Option Nat} {control : Control}
    (h : p.runSubroutine start m limit control = .error e) : p.Refuses e := by
  unfold runSubroutine at h
  split at h
  · cases h
  · exact refuses_of_walk h

theorem refuses_of_runLoop {branch : Nat} {label : String} {limit : Option Nat} {cancelled : Bool}
    (h : p.runLoop branch label m limit cancelled = .error e) : p.Refuses e := by
  unfold runLoop at h
  split at h
  · split at h
    · split at h
      · cases h
      · exact refuses_of_walkLoop h
    · cases h
  · cases h

/-! ## programs of lines -/

variable {settings : Settings} {lines : List String} {labels : Labels} {symbols : Symbols}
  {image : Memory} {addresses : List (Nat × Nat)}

/-- The instruction of an executable line is the one on its text. -/
theorem refusal?_of_codeLine {table : Std.ExtTreeMap Nat Nat} {text : String}
    (h : codeLine? table text number = some line) :
    Source.refusal? text = line.instruction.refusal? := by
  unfold codeLine? at h
  split at h
  case h_1 found hp =>
      split at h
      case isTrue =>
          obtain ⟨i, hi, rfl⟩ := Option.map_eq_some_iff.mp h
          rw [Source.refusal?, ← Source.instruction?_parseLine? number, hp, Option.bind_some, hi,
            Option.bind_some]
      case isFalse => cases h
  case h_2 => cases h

/-- A line of a program is refused only if one of the texts is. -/
theorem exists_refusal (h : (ofLines settings lines labels symbols image addresses).Refuses e) :
    ∃ text ∈ lines, Source.refusal? text = some e := by
  obtain ⟨number, line, hl, hr⟩ := h
  obtain ⟨i, text, _, ht, hc⟩ := line?_ofLines hl
  exact ⟨text, List.mem_of_getElem? ht, (refusal?_of_codeLine hc).trans hr⟩

/-- A run of lines comes to an outcome, or fails at a text that the machine refuses. -/
def ReturnsUnlessRefused (lines : List String) (run : Except UnknownRegister Outcome) : Prop :=
  (∃ o, run = .ok o) ∨ ∃ text ∈ lines, ∃ e, Source.refusal? text = some e ∧ run = .error e

theorem returnsUnlessRefused_of_refuses {run : Except UnknownRegister Outcome}
    (h : ∀ e, run = .error e → (ofLines settings lines labels symbols image addresses).Refuses e) :
    ReturnsUnlessRefused lines run := by
  cases run with
  | ok o => exact .inl ⟨o, rfl⟩
  | error e =>
      obtain ⟨text, ht, hr⟩ := exists_refusal (h e rfl)
      exact .inr ⟨text, ht, e, hr, rfl⟩

end Program

end Z80Workbench
