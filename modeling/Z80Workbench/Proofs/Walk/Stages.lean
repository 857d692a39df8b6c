import Z80Workbench.Walk.Run

/-!
# Z80Workbench.Proofs.Walk.Stages

The walk that nothing stops, stage by stage.  A run of a routine goes through the same stages, and
its limit and its test only say at which of them it stops: at the first one where the walk has
ended, where the limit is reached, or, behind the first line, where the test holds.
-/

namespace Z80Workbench

/-- Where a walk that nothing stops is: in front of a line, at its end, or at a line that has no
next state. -/
inductive Stage where
  | before (number : Nat) (line : CodeLine) (w : Walker)
  | ended (status : Status) (w : Walker)
  | failed (e : UnknownRegister)

namespace Stage

/-- A run with a limit and a test stops at the stage, which it comes to after `k` lines. -/
def Stops (limit : Nat) (test : Nat → Machine → Bool) (k : Nat) : Stage → Prop
  | before number _ w => k = limit ∨ 1 ≤ k ∧ test number w.machine = true
  | ended _ _ | failed _ => True

/-- What a run comes to that stops at the stage after `k` lines.  The limit goes before the
test. -/
def outcome (limit k : Nat) : Stage → Except UnknownRegister Outcome
  | before number _ w =>
    .ok ⟨w.machine, if k = limit then .stepLimit else .breakpoint, k, w.lastLine, some number⟩
  | ended status w => .ok ⟨w.machine, status, k, w.lastLine, none⟩
  | failed e => .error e

variable {limit more k : Nat} {test : Nat → Machine → Bool} {s : Stage}

/-- Every run stops at its limit. -/
theorem stops_limit (s : Stage) : s.Stops limit test limit := by
  cases s with
  | before => exact .inl rfl
  | ended | failed => trivial

/-- Before its limit, a run stops at the same stages as one with a larger limit. -/
theorem stops_larger (hk : k < limit) (hm : limit ≤ more) :
    s.Stops more test k ↔ s.Stops limit test k := by
  cases s with
  | before number line w =>
      have short : k ≠ more := by omega
      have shorter : k ≠ limit := by omega
      simp [Stops, short, shorter]
  | ended | failed => exact Iff.rfl

/-- Where a run stops short of its limit, and where its walk has ended, one with a larger limit
stops as well and comes to the same. -/
theorem larger_of_not_stepLimit (hk : k ≤ limit) (hm : limit ≤ more)
    (hs : s.Stops limit test k)
    (h : ∀ o, s.outcome limit k = .ok o → o.status ≠ .stepLimit) :
    s.Stops more test k ∧ s.outcome more k = s.outcome limit k := by
  cases s with
  | before number line w =>
      have short : k ≠ limit := fun reached => h _ rfl (if_pos reached)
      have shorter : k ≠ more := by omega
      exact ⟨.inr (hs.resolve_left short), by simp [outcome, short, shorter]⟩
  | ended | failed => exact ⟨trivial, rfl⟩

theorem steps_of_outcome {o : Outcome} (h : s.outcome limit k = .ok o) : o.steps = k := by
  cases s <;> cases h <;> rfl

end Stage

namespace Program

variable {p : Program}

/-! ## the stages of a walk -/

/-- The stage of a walk that looks for its next line. -/
def arrive (p : Program) (w : Walker) : Stage :=
  match p.executable? w.line with
  | some (number, line) => .before number line w
  | none => .ended .endOfSource w

/-- The stage behind a line.  A walk that has ended stays where it is. -/
def advance (p : Program) : Stage → Stage
  | .before number line w =>
    match p.step true number line w.machine w.returns with
    | .error e => .failed e
    | .ok ⟨machine, returns, none⟩ => .ended .returned (w.moved number machine returns 0)
    | .ok ⟨machine, returns, some next⟩ => p.arrive (w.moved number machine returns next)
  | stage => stage

/-- The stage that a walk comes to after some lines. -/
def stageFrom (p : Program) (w : Walker) : Nat → Stage
  | 0 => p.arrive w
  | k + 1 => p.advance (p.stageFrom w k)

variable {w : Walker} {number : Nat} {line : CodeLine} {test : Nat → Machine → Bool}

/-- The stages behind a line are those of the walk that goes on from there. -/
theorem stageFrom_succ {machine : Machine} {returns : List Nat} {next : Nat}
    (he : p.executable? w.line = some (number, line))
    (hs : p.step true number line w.machine w.returns = .ok ⟨machine, returns, some next⟩)
    (k : Nat) : p.stageFrom w (k + 1) = p.stageFrom (w.moved number machine returns next) k := by
  induction k with
  | zero => simp [stageFrom, arrive, advance, he, hs]
  | succ k ih => rw [stageFrom, ih, stageFrom]

/-! ## where a walk stops -/

/-- A walk with a limit and a test stops after `k` more lines: not at an earlier stage, but at this
one. -/
structure StopsAfter (p : Program) (w : Walker) (limit : Nat) (test : Nat → Machine → Bool)
    (k : Nat) : Prop where
  earlier : ∀ j < k, ¬ (p.stageFrom w j).Stops limit test (w.steps + j)
  stops : (p.stageFrom w k).Stops limit test (w.steps + k)

/-- A walk that stops at its first stage comes to what that stage says. -/
theorem walk_of_stops {remaining : Nat}
    (h : (p.arrive w).Stops (w.steps + remaining) test w.steps) :
    p.walk { stops := test } remaining w =
      (p.arrive w).outcome (w.steps + remaining) w.steps := by
  unfold walk
  unfold arrive at h ⊢
  cases he : p.executable? w.line with
  | none => rfl
  | some found =>
      rw [he] at h
      cases remaining with
      | zero => simp [Walker.ended, Stage.outcome]
      | succ remaining =>
          obtain last | ⟨first, holds⟩ := h
          · omega
          · have begun : w.steps ≠ 0 := by omega
            simp [begun, holds, Walker.ended, Stage.outcome]

/-- A walk that does not stop at its first stage executes the line there. -/
theorem walk_of_not_stops {remaining : Nat}
    (h : ¬ (p.arrive w).Stops (w.steps + (remaining + 1)) test w.steps) :
    ∃ number line, p.executable? w.line = some (number, line) ∧
      p.walk { stops := test } (remaining + 1) w =
        match p.step true number line w.machine w.returns with
        | .error e => .error e
        | .ok ⟨machine, returns, none⟩ =>
          .ok ((w.moved number machine returns 0).ended .returned none)
        | .ok ⟨machine, returns, some next⟩ =>
          p.walk { stops := test } remaining (w.moved number machine returns next) := by
  unfold arrive at h
  cases he : p.executable? w.line with
  | none =>
      rw [he] at h
      exact absurd trivial h
  | some found =>
      rw [he] at h
      have stay : ¬ (w.steps ≠ 0 && test found.1 w.machine) = true := by
        intro stop
        obtain ⟨begun, holds⟩ := Bool.and_eq_true_iff.mp stop
        exact h (.inr ⟨Nat.one_le_iff_ne_zero.mpr (of_decide_eq_true begun), holds⟩)
      refine ⟨_, _, rfl, ?_⟩
      rw [walk, he]
      simp only [Bool.false_eq_true, if_false]
      exact if_neg stay

/-- A walk stops at the first stage where it has to, and comes to what this stage says. -/
theorem walk_eq_outcome (test : Nat → Machine → Bool) (remaining : Nat) (w : Walker) :
    ∃ k, p.StopsAfter w (w.steps + remaining) test k ∧
      p.walk { stops := test } remaining w =
        (p.stageFrom w k).outcome (w.steps + remaining) (w.steps + k) := by
  induction remaining generalizing w with
  | zero =>
      have stop : (p.arrive w).Stops w.steps test w.steps := Stage.stops_limit _
      exact ⟨0, ⟨nofun, stop⟩, walk_of_stops stop⟩
  | succ remaining ih =>
      by_cases stop : (p.arrive w).Stops (w.steps + (remaining + 1)) test w.steps
      case pos => exact ⟨0, ⟨nofun, stop⟩, walk_of_stops stop⟩
      case neg =>
          obtain ⟨number, line, he, hw⟩ := walk_of_not_stops stop
          have here : p.stageFrom w 0 = .before number line w := by rw [stageFrom, arrive, he]
          have first : ∀ j < 1,
              ¬ (p.stageFrom w j).Stops (w.steps + (remaining + 1)) test (w.steps + j) := by
            intro j hj
            rw [Nat.lt_one_iff.mp hj]
            exact stop
          rw [hw]
          cases hs : p.step true number line w.machine w.returns with
          | error e =>
              have last : p.stageFrom w 1 = .failed e := by rw [stageFrom, here, advance, hs]
              exact ⟨1, ⟨first, last ▸ trivial⟩, by rw [last]; rfl⟩
          | ok move =>
              obtain ⟨machine, returns, _ | next⟩ := move
              · have last : p.stageFrom w 1 =
                    .ended .returned (w.moved number machine returns 0) := by
                  rw [stageFrom, here, advance, hs]
                exact ⟨1, ⟨first, last ▸ trivial⟩, by rw [last]; rfl⟩
              · -- the stages of the walk behind the line are these, one line later
                obtain ⟨k, ⟨earlier, stops⟩, hk⟩ := ih (w.moved number machine returns next)
                have count : ∀ j, (w.moved number machine returns next).steps + j =
                    w.steps + (j + 1) := by
                  intro j
                  show w.steps + 1 + j = _
                  omega
                simp only [count, ← stageFrom_succ he hs] at earlier stops hk
                refine ⟨k + 1, ⟨?_, stops⟩, hk⟩
                intro j hj
                cases j with
                | zero => exact stop
                | succ j => exact earlier j (Nat.lt_of_succ_lt_succ hj)

/-! ## limits -/

namespace StopsAfter

variable {limit more j k : Nat}

/-- A walk stops at its limit at the latest. -/
theorem le_limit (h : p.StopsAfter w limit test k) (hl : w.steps ≤ limit) :
    w.steps + k ≤ limit := by
  refine Nat.le_of_not_lt fun beyond => ?_
  have sum : w.steps + (limit - w.steps) = limit := Nat.add_sub_of_le hl
  refine h.earlier (limit - w.steps) (by omega) ?_
  rw [sum]
  exact Stage.stops_limit _

/-- A larger limit does not make a walk stop earlier. -/
theorem le_of_larger (hk : p.StopsAfter w limit test k) (hj : p.StopsAfter w more test j)
    (hl : w.steps ≤ limit) (hm : limit ≤ more) : k ≤ j := by
  have short := hk.le_limit hl
  refine Nat.le_of_not_lt fun before => hk.earlier j before ?_
  exact (Stage.stops_larger (by omega) hm).mp hj.stops

/-- Nor does it let a walk go on that has stopped before its limit. -/
theorem larger (h : p.StopsAfter w limit test k) (hk : w.steps + k ≤ limit)
    (hs : (p.stageFrom w k).Stops more test (w.steps + k)) (hm : limit ≤ more) :
    p.StopsAfter w more test k where
  earlier j hj := by
    rw [Stage.stops_larger (by omega) hm]
    exact h.earlier j hj
  stops := hs

end StopsAfter

/-! ## runs -/

variable {start : Start} {m : Machine}

/-- The walk of a run before its first line.  An unknown start is a line that does not exist. -/
def walkerAt (p : Program) (start : Start) (m : Machine) : Walker :=
  { line := (p.startLine? start).getD 0, machine := m }

/-- The stage that the walk from a start comes to after some lines. -/
def stage (p : Program) (start : Start) (m : Machine) (k : Nat) : Stage :=
  p.stageFrom (p.walkerAt start m) k

@[simp] theorem steps_walkerAt : (p.walkerAt start m).steps = 0 := rfl

/-- The limit of a run, which the settings give if it is not given. -/
def limitOf (p : Program) (limit : Option Nat) : Nat := limit.getD p.settings.subroutineLimit

/-- A run is the walk from its start, also if the start is unknown. -/
theorem runSubroutine_eq_walk (limit : Option Nat) (control : Control) :
    p.runSubroutine start m limit control =
      p.walk control (p.limitOf limit) (p.walkerAt start m) := by
  unfold runSubroutine walkerAt
  cases p.startLine? start with
  | some line => rfl
  | none => rw [walk]; rfl

/-- A run stops at the first stage where it has to, and comes to what this stage says. -/
theorem runSubroutine_eq_outcome (p : Program) (start : Start) (m : Machine) (limit : Option Nat)
    (test : Nat → Machine → Bool) :
    ∃ k, p.StopsAfter (p.walkerAt start m) (p.limitOf limit) test k ∧
      p.runSubroutine start m limit { stops := test } =
        (p.stage start m k).outcome (p.limitOf limit) k := by
  have h := walk_eq_outcome (p := p) test (p.limitOf limit) (p.walkerAt start m)
  simpa only [stage, steps_walkerAt, Nat.zero_add, ← runSubroutine_eq_walk] using h

/-- **A limit and a test only cut a run short.**  A run goes through the stages of the walk that
nothing stops, and stops at the first one where the walk has ended, where as many lines as the
limit says have been executed, or, behind the first line, where the test holds; this is the order
in which they count.  So it executes no more lines than its limit says; a larger limit changes
nothing about a run that has not reached its limit; and a look ahead goes through the first of the
stages that a run with a limit as large goes through. -/
theorem runSubroutine_truncates (p : Program) (start : Start) (m : Machine) (limit : Option Nat)
    (test : Nat → Machine → Bool) :
    (∃ k, (∀ j < k, ¬ (p.stage start m j).Stops (p.limitOf limit) test j) ∧
      (p.stage start m k).Stops (p.limitOf limit) test k ∧
      p.runSubroutine start m limit { stops := test } =
        (p.stage start m k).outcome (p.limitOf limit) k) ∧
    (∀ o, p.runSubroutine start m limit { stops := test } = .ok o →
      o.steps ≤ p.limitOf limit) ∧
    (∀ more, p.limitOf limit ≤ p.limitOf more →
      (∀ o, p.runSubroutine start m limit { stops := test } = .ok o → o.status ≠ .stepLimit) →
      p.runSubroutine start m more { stops := test } =
        p.runSubroutine start m limit { stops := test }) ∧
    ∀ ahead, ahead.getD p.settings.lookaheadLimit ≤ p.limitOf limit →
      ∃ k j, k ≤ j ∧
        p.lookAhead start m ahead false =
          (p.stage start m k).outcome (ahead.getD p.settings.lookaheadLimit) k ∧
        p.runSubroutine start m limit {} = (p.stage start m j).outcome (p.limitOf limit) j := by
  obtain ⟨k, first, hk⟩ := p.runSubroutine_eq_outcome start m limit test
  have below : k ≤ p.limitOf limit := by simpa using first.le_limit
  refine ⟨?stops, ?bounded, ?larger, ?ahead⟩
  case stops =>
      exact ⟨k, by simpa [stage] using first.earlier, by simpa [stage] using first.stops, hk⟩
  case bounded =>
      intro o ho
      rw [hk] at ho
      rw [Stage.steps_of_outcome ho]
      exact below
  case larger =>
      intro more hm unbounded
      obtain ⟨j, other, hj⟩ := p.runSubroutine_eq_outcome start m more test
      rw [hk] at unbounded
      have here : (p.stage start m k).Stops (p.limitOf limit) test k := by
        simpa [stage] using first.stops
      obtain ⟨stops, same⟩ := Stage.larger_of_not_stepLimit below hm here unbounded
      have again : p.StopsAfter (p.walkerAt start m) (p.limitOf more) test k :=
        first.larger (by simpa using below) (by simpa [stage] using stops) hm
      have only : j = k :=
        Nat.le_antisymm (other.le_of_larger again (Nat.zero_le _) (Nat.le_refl _))
          (first.le_of_larger other (Nat.zero_le _) hm)
      rw [hj, hk, only, same]
  case ahead =>
      intro ahead hl
      obtain ⟨k, few, hk⟩ := p.runSubroutine_eq_outcome start m
        (some (ahead.getD p.settings.lookaheadLimit)) (fun _ _ => false)
      obtain ⟨j, many, hj⟩ := p.runSubroutine_eq_outcome start m limit (fun _ _ => false)
      exact ⟨k, j, few.le_of_larger many (Nat.zero_le _) hl, hk, hj⟩

end Program

end Z80Workbench
