import Z80Workbench.Proofs.Walk.ComputedJump
import Z80Workbench.Proofs.Walk.Stages

/-!
# Z80Workbench.Proofs.Walk.Resumption

Runs in parts.  A run that its limit has stopped can be taken up again at the line in front of
which it stands, with the machine that it has left: all that gets lost are the lines to return to.
If there are none, then the parts come to what the whole run comes to.
-/

namespace Z80Workbench

/-- The lines that a walk has to return to from a stage. -/
def Stage.returns : Stage → List Nat
  | before _ _ w | ended _ w => w.returns
  | failed _ => []

/-- An outcome behind some lines that have been executed before. -/
def Outcome.after (steps : Nat) (o : Outcome) : Outcome := { o with steps := steps + o.steps }

namespace Program

variable {p : Program} {w v : Walker} {number k : Nat} {line : CodeLine}

/-! ## the walker at a stage -/

/-- A walk that is in front of a line has found it. -/
theorem executable?_of_before (h : p.stageFrom w k = .before number line v) :
    p.executable? v.line = some (number, line) := by
  have found {u : Walker} (h : p.arrive u = .before number line v) :
      p.executable? v.line = some (number, line) := by
    unfold arrive at h
    split at h
    · cases h; assumption
    · cases h
  cases k with
  | zero => exact found h
  | succ k =>
      rw [stageFrom] at h
      cases hk : p.stageFrom w k with
      | before number line u =>
          rw [hk, advance] at h
          split at h
          · cases h
          · cases h
          · exact found h
      | ended | failed => rw [hk] at h; cases h

/-- A walk is in front of a line only if it has come on from the line before. -/
theorem exists_step_of_before (h : p.stageFrom w (k + 1) = .before number line v) :
    ∃ earlier last u machine returns next, p.stageFrom w k = .before earlier last u ∧
      p.step true earlier last u.machine u.returns = .ok ⟨machine, returns, some next⟩ ∧
      v = u.moved earlier machine returns next := by
  rw [stageFrom] at h
  cases hk : p.stageFrom w k with
  | before earlier last u =>
      rw [hk, advance] at h
      split at h
      case h_1 => cases h
      case h_2 => cases h
      case h_3 machine returns next hs =>
          refine ⟨earlier, last, u, machine, returns, next, rfl, hs, ?_⟩
          unfold arrive at h
          split at h <;> cases h
          rfl
  | ended | failed => rw [hk] at h; cases h

/-- Every line counts. -/
theorem steps_of_before (h : p.stageFrom w k = .before number line v) : v.steps = w.steps + k := by
  induction k generalizing number line v with
  | zero =>
      rw [stageFrom, arrive] at h
      split at h <;> cases h
      rfl
  | succ k ih =>
      obtain ⟨earlier, last, u, machine, returns, next, hk, -, rfl⟩ := exists_step_of_before h
      show u.steps + 1 = _
      rw [ih hk, Nat.add_assoc]

/-- A walk ends on its own at its outermost return or at the end of the source. -/
theorem status_of_ended {status : Status} (h : p.stageFrom w k = .ended status v) :
    status ≠ .stepLimit := by
  have arrived {u : Walker} (h : p.arrive u = .ended status v) : status ≠ .stepLimit := by
    unfold arrive at h
    split at h <;> cases h
    decide
  induction k with
  | zero => exact arrived h
  | succ k ih =>
      rw [stageFrom] at h
      cases hk : p.stageFrom w k with
      | before number line u =>
          rw [hk, advance] at h
          split at h
          · cases h
          · cases h; decide
          · exact arrived h
      | ended other u =>
          rw [hk] at h
          cases h
          exact ih hk
      | failed => rw [hk] at h; cases h

/-! ## taking a walk up again -/

/-- A walk with enough lines left passes through each of its stages and goes on from there. -/
theorem walk_eq_of_before (h : p.stageFrom w k = .before number line v) (more : Nat) :
    p.walk {} (k + more) w = p.walk {} more v := by
  induction k generalizing number line v more with
  | zero =>
      have same : v = w := by
        rw [stageFrom, arrive] at h
        split at h <;> cases h
        rfl
      rw [same, Nat.zero_add]
  | succ k ih =>
      obtain ⟨earlier, last, u, machine, returns, next, hk, hs, rfl⟩ := exists_step_of_before h
      rw [Nat.add_assoc, Nat.add_comm 1 more, ih hk (more + 1), walk]
      simp [executable?_of_before hk, hs]

/-- What a walk comes to does not depend on how many lines it has executed before; they only
count. -/
theorem walk_after (steps remaining : Nat) (w : Walker) :
    p.walk {} remaining { w with steps := steps + w.steps } =
      (p.walk {} remaining w).map (·.after steps) := by
  induction remaining generalizing w with
  | zero =>
      rw [walk, walk]
      cases p.executable? w.line <;> rfl
  | succ remaining ih =>
      rw [walk, walk]
      cases p.executable? w.line with
      | none => rfl
      | some found =>
          simp only [Bool.and_false, Bool.false_eq_true, if_false]
          cases p.step true found.1 found.2 w.machine w.returns with
          | error e => rfl
          | ok move =>
              obtain ⟨machine, returns, _ | next⟩ := move
              · rfl
              · exact ih (w.moved found.1 machine returns next)

/-- A walk that has no line to return to goes on as a walk that starts where it is. -/
theorem walk_restart (here : p.executable? v.line = some (number, line))
    (again : p.executable? number = some (number, line)) (level : v.returns = [])
    (remaining : Nat) :
    p.walk {} (remaining + 1) v =
      (p.walk {} (remaining + 1) { line := number, machine := v.machine }).map
        (·.after v.steps) := by
  rw [walk, walk]
  simp only [here, again, level, Bool.and_false, Bool.false_eq_true, if_false]
  cases p.step true number line v.machine [] with
  | error e => rfl
  | ok move =>
      obtain ⟨machine, returns, _ | next⟩ := move
      · rfl
      · exact walk_after v.steps remaining ⟨next, machine, returns, 1, some number⟩

/-- A walk that its limit stops is in front of the line which it names. -/
theorem before_of_stepLimit {limit : Nat} {o : Outcome} (h : p.walk {} limit w = .ok o)
    (cut : o.status = .stepLimit) :
    ∃ number line v, p.stageFrom w limit = .before number line v ∧
      o = ⟨v.machine, .stepLimit, w.steps + limit, v.lastLine, some number⟩ := by
  obtain ⟨k, _, hk⟩ := walk_eq_outcome (p := p) (fun _ _ => false) limit w
  rw [hk] at h
  cases hs : p.stageFrom w k with
  | before number line v =>
      rw [hs] at h
      cases h
      obtain rfl : k = limit := by simpa using cut
      exact ⟨number, line, v, hs, by simp⟩
  | ended status v =>
      rw [hs] at h
      cases h
      exact absurd cut (status_of_ended hs)
  | failed e => rw [hs] at h; cases h

/-- **Runs are resumable.**  If a run is stopped by its limit in front of a line, and has come back
from every call, then a run from that line, with the machine that the first has left, comes to what
one run with both limits comes to: the same machine, status, last line and next line after as many
lines together, or the same failure. -/
theorem runSubroutine_resumes {start : Start} {m : Machine} {limit : Nat} {o : Outcome}
    (h : p.runSubroutine start m (some limit) {} = .ok o) (cut : o.status = .stepLimit)
    (level : (p.stage start m limit).returns = []) :
    ∃ next, o.nextLine = some next ∧ o.steps = limit ∧ ∀ more, 1 ≤ more →
      p.runSubroutine start m (some (limit + more)) {} =
        (p.runSubroutine (.line next) o.machine (some more) {}).map (·.after o.steps) := by
  have walked : p.walk {} limit (p.walkerAt start m) = .ok o := by
    rwa [runSubroutine_eq_walk] at h
  obtain ⟨number, line, v, hv, rfl⟩ := before_of_stepLimit walked cut
  rw [steps_walkerAt, Nat.zero_add]
  refine ⟨number, rfl, rfl, fun more positive => ?_⟩
  obtain ⟨remaining, rfl⟩ := Nat.exists_eq_add_of_le' positive
  have here := executable?_of_before hv
  obtain ⟨again, first⟩ := executable?_of_line? (line?_of_executable here)
  have emptied : v.returns = [] := by rwa [stage, hv] at level
  have count : v.steps = limit := by rw [steps_of_before hv, steps_walkerAt, Nat.zero_add]
  have fresh : p.walkerAt (.line number) v.machine = { line := number, machine := v.machine } := by
    rw [walkerAt, first, Option.getD_some]
  rw [runSubroutine_eq_walk, runSubroutine_eq_walk, limitOf, limitOf, Option.getD_some,
    Option.getD_some, walk_eq_of_before hv, fresh, ← count]
  exact walk_restart here again emptied remaining

/-- A routine that calls another one at its start. -/
def callsFirst : Program :=
  ofAnalysis {} (Analysis.ofSource {} "MAIN: CALL SUB\n INC B\n RET\nSUB: INC A\n RET" "")

/-- A run that is cut behind its call, and taken up again until it returns. -/
theorem runSubroutine_resumes_callsFirst :
    ∃ o, callsFirst.runSubroutine (.label "MAIN") (Machine.initial {}) (some 3) {} = .ok o ∧
      o.status = .stepLimit ∧
      (callsFirst.stage (.label "MAIN") (Machine.initial {}) 3).returns = [] ∧
      o.nextLine = some 2 ∧
      callsFirst.runSubroutine (.label "MAIN") (Machine.initial {}) (some (3 + 2)) {} =
        (callsFirst.runSubroutine (.line 2) o.machine (some 2) {}).map (·.after o.steps) := by
  have cut :
      ((callsFirst.runSubroutine (.label "MAIN") (Machine.initial {}) (some 3) {}).toOption.map
        fun o => (o.status, o.nextLine)) = some (.stepLimit, some 2) := by
    decide +kernel
  have level : (callsFirst.stage (.label "MAIN") (Machine.initial {}) 3).returns = [] := by
    decide +kernel
  cases h : callsFirst.runSubroutine (.label "MAIN") (Machine.initial {}) (some 3) {} with
  | error e => rw [h] at cut; cases cut
  | ok o =>
      rw [h] at cut
      obtain ⟨status, line⟩ := Prod.mk.inj (Option.some.inj cut)
      obtain ⟨next, hn, -, resumed⟩ := runSubroutine_resumes h status level
      obtain rfl : next = 2 := Option.some.inj (hn.symm.trans line)
      exact ⟨o, rfl, status, level, hn, resumed 2 (by decide)⟩

end Program

end Z80Workbench
