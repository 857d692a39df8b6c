import Z80Workbench.Proofs.Machine.Flat
import Z80Workbench.Proofs.Walk.Stages

/-!
# Z80Workbench.Proofs.Walk.Flat

Walks through a program with its image and without.  Each step, and so each walk, does to the flat
machine without an image what it does to the machine over the image.  Two machines that look the
same, each over an image of its own, therefore take the same walk, and still look the same at every
line of it.
-/

namespace Z80Workbench

open Machine (Env LooksLike)

/-! ## what a walk comes to -/

/-- The move with the flat machine. -/
def Move.flat (env : Env) (move : Move) : Move := { move with machine := move.machine.flat env }

/-- The walk with the flat machine. -/
def Walker.flat (env : Env) (w : Walker) : Walker := { w with machine := w.machine.flat env }

namespace Walker

variable {w : Walker} {env : Env}

@[simp] theorem line_flat : (w.flat env).line = w.line := rfl

@[simp] theorem machine_flat : (w.flat env).machine = w.machine.flat env := rfl

@[simp] theorem returns_flat : (w.flat env).returns = w.returns := rfl

@[simp] theorem steps_flat : (w.flat env).steps = w.steps := rfl

end Walker

/-- The outcome with the flat machine. -/
def Outcome.flat (env : Env) (o : Outcome) : Outcome := { o with machine := o.machine.flat env }

/-- The stage with the flat machine. -/
def Stage.flat (env : Env) : Stage → Stage
  | before number line w => .before number line (w.flat env)
  | ended status w => .ended status (w.flat env)
  | failed e => .failed e

/-- The second control stops with the flat machine where the first stops with the machine. -/
structure Control.Flattens (env : Env) (control bare : Control) : Prop where
  cancelled : bare.cancelled = control.cancelled
  stops : ∀ number m, bare.stops number (m.flat env) = control.stops number m

namespace Program

/-- The program without its image. -/
def bare (p : Program) : Program := { p with image := ∅ }

variable {p : Program} {m : Machine} {w : Walker}

theorem env_bare : p.bare.env = p.env.bare := rfl

@[simp] theorem scope_bare : p.bare.env.scope = p.env.scope := rfl

@[simp] theorem code_bare : p.bare.code = p.code := rfl

@[simp] theorem labels_bare : p.bare.labels = p.labels := rfl

@[simp] theorem symbols_bare : p.bare.symbols = p.symbols := rfl

@[simp] theorem settings_bare : p.bare.settings = p.settings := rfl

@[simp] theorem size_bare : p.bare.size = p.size := rfl

@[simp] theorem labelLine?_bare (label : String) :
    p.bare.labelLine? label = p.labelLine? label := rfl

/-! ## steps -/

theorem executableFrom?_bare (index : Nat) :
    p.bare.executableFrom? index = p.executableFrom? index := by
  induction index using executableFrom?.induct p with
  | case1 index inside line found =>
      unfold executableFrom?
      simp only [code_bare, inside, found]
  | case2 index inside found ih =>
      unfold executableFrom?
      simp only [code_bare, inside, found, ih]
  | case3 index outside =>
      unfold executableFrom?
      rw [dif_neg outside]
      exact dif_neg outside

theorem executable?_bare (number : Nat) : p.bare.executable? number = p.executable? number := by
  rw [executable?, executable?, executableFrom?_bare]

theorem atAddress_bare : p.bare.atAddress = p.atAddress := rfl

theorem atExpression_bare (text : String) : p.bare.atExpression text = p.atExpression text := by
  unfold atExpression
  rw [labels_bare, symbols_bare, settings_bare, scope_bare, atAddress_bare]

theorem destination_flat (mode : Option Mode) :
    p.bare.destination (m.flat p.env) mode = p.destination m mode := by
  simp only [destination, atAddress_bare, atExpression_bare, Machine.registers_flat]

theorem executeLine_flat (line : CodeLine) :
    p.bare.executeLine line (m.flat p.env) = (p.executeLine line m).map (·.flat p.env) :=
  m.executeAt_flat _ _

theorem stepCall_flat (number : Nat) (line : CodeLine) (returns : List Nat) :
    p.bare.stepCall number line (m.flat p.env) returns =
      (p.stepCall number line m returns).map (·.flat p.env) := by
  simp only [stepCall, executeLine_flat, destination_flat, Machine.flags_flat, env_bare]
  split
  · cases p.executeLine line m with
    | error e => rfl
    | ok called =>
        show Except.ok _ = Except.ok _
        rw [Machine.popPc_flat]
        split <;> rfl
  · rfl

theorem leave_flat (returns : List Nat) (env : Env) :
    Move.leave (m.flat env) returns = (Move.leave m returns).flat env := by
  cases returns <;> rfl

theorem stepReturn_flat (number : Nat) (line : CodeLine) (returns : List Nat) :
    p.bare.stepReturn number line (m.flat p.env) returns =
      (p.stepReturn number line m returns).map (·.flat p.env) := by
  simp only [stepReturn, executeLine_flat, Machine.flags_flat]
  split
  · cases p.executeLine line m with
    | error e => rfl
    | ok left => exact congrArg Except.ok (leave_flat returns p.env)
  · rfl

theorem isFirmware_bare (d : Destination) : p.bare.isFirmware d = p.isFirmware d := rfl

theorem stepJump_flat (tailCalls : Bool) (number : Nat) (line : CodeLine) (returns : List Nat) :
    p.bare.stepJump tailCalls number line (m.flat p.env) returns =
      (p.stepJump tailCalls number line m returns).map (·.flat p.env) := by
  simp only [stepJump, executeLine_flat, destination_flat, Machine.flags_flat, env_bare,
    isFirmware_bare]
  split
  · cases p.executeLine line m with
    | error e => rfl
    | ok jumped =>
        show Except.ok _ = Except.ok _
        rw [Machine.popPc_flat, leave_flat]
        split
        · rfl
        · split <;> rfl
  · rfl

theorem stepCount_flat (number : Nat) (line : CodeLine) (returns : List Nat) :
    p.bare.stepCount number line (m.flat p.env) returns =
      (p.stepCount number line m returns).map (·.flat p.env) := by
  simp only [stepCount, executeLine_flat]
  cases p.executeLine line m with
  | error e => rfl
  | ok counted =>
      show (if counted.registers.b = 0 then _ else _) = Except.map _ (if _ then _ else _)
      rw [destination_flat]
      split <;> rfl

/-- A step does the same in both. -/
theorem step_flat (tailCalls : Bool) (number : Nat) (line : CodeLine) (returns : List Nat) :
    p.bare.step tailCalls number line (m.flat p.env) returns =
      (p.step tailCalls number line m returns).map (·.flat p.env) := by
  simp only [step, stepCall_flat, stepReturn_flat, stepJump_flat, stepCount_flat, executeLine_flat]
  split
  case h_9 => cases p.executeLine line m <;> rfl
  all_goals rfl

/-! ## walks -/

theorem walk_flat {control bare : Control} (h : control.Flattens p.env bare) (remaining : Nat)
    (w : Walker) :
    p.bare.walk bare remaining (w.flat p.env) =
      (p.walk control remaining w).map (·.flat p.env) := by
  induction remaining generalizing w with
  | zero =>
      unfold walk
      rw [Walker.line_flat, executable?_bare, h.cancelled]
      split
      · rfl
      · split <;> rfl
  | succ remaining ih =>
      unfold walk
      rw [Walker.line_flat, executable?_bare, h.cancelled]
      split
      · rfl
      split
      · rfl
      dsimp only
      rw [Walker.steps_flat, Walker.machine_flat, Walker.returns_flat, h.stops, step_flat]
      split
      · rfl
      cases p.step true _ _ w.machine w.returns with
      | error e => rfl
      | ok move =>
          obtain ⟨machine, returns, _ | next⟩ := move
          · rfl
          · exact ih (w.moved _ machine returns next)

theorem walkLoop_flat (w : Walker) (cancelled : Bool) (remaining : Nat) (loop : CountedLoop) :
    p.bare.walkLoop cancelled remaining loop (w.flat p.env) =
      (p.walkLoop cancelled remaining loop w).map (·.flat p.env) := by
  induction remaining generalizing loop w with
  | zero =>
      unfold walkLoop
      rw [Walker.line_flat, executable?_bare]
      split
      · rfl
      · split <;> rfl
  | succ remaining ih =>
      unfold walkLoop
      rw [Walker.line_flat, executable?_bare]
      split
      · rfl
      split
      · rfl
      simp only [Walker.machine_flat, Walker.returns_flat, step_flat]
      split
      · split
        · rfl
        · exact ih (w.moved _ (w.machine.set8 .b _) w.returns loop.body) _
      cases p.step false _ _ w.machine w.returns with
      | error e => rfl
      | ok move =>
          obtain ⟨machine, returns, _ | next⟩ := move
          · rfl
          · exact ih (w.moved _ machine returns next) loop

variable {start : Start}

theorem runSubroutine_flat {control bare : Control} (h : control.Flattens p.env bare)
    (limit : Option Nat) :
    p.bare.runSubroutine start (m.flat p.env) limit bare =
      (p.runSubroutine start m limit control).map (·.flat p.env) := by
  rw [runSubroutine_eq_walk, runSubroutine_eq_walk, ← walk_flat h]
  rfl

theorem lookAhead_flat (limit : Option Nat) (cancelled : Bool) :
    p.bare.lookAhead start (m.flat p.env) limit cancelled =
      (p.lookAhead start m limit cancelled).map (·.flat p.env) :=
  runSubroutine_flat ⟨rfl, fun _ _ => rfl⟩ _

theorem runLoop_flat (branch : Nat) (label : String) (limit : Option Nat) (cancelled : Bool) :
    p.bare.runLoop branch label (m.flat p.env) limit cancelled =
      (p.runLoop branch label m limit cancelled).map (·.flat p.env) := by
  unfold runLoop
  rw [labelLine?_bare, size_bare, settings_bare, Machine.registers_flat]
  split
  case h_1 body _ =>
      split
      · split
        · rfl
        · exact walkLoop_flat { line := body, machine := m } _ _ _
      · rfl
  case h_2 => rfl

/-! ## stages -/

theorem arrive_flat (w : Walker) : p.bare.arrive (w.flat p.env) = (p.arrive w).flat p.env := by
  unfold arrive
  rw [Walker.line_flat, executable?_bare]
  split <;> rfl

theorem advance_flat (s : Stage) : p.bare.advance (s.flat p.env) = (p.advance s).flat p.env := by
  cases s with
  | ended | failed => rfl
  | before number line w =>
      simp only [Stage.flat, advance, Walker.machine_flat, Walker.returns_flat, step_flat]
      cases p.step true number line w.machine w.returns with
      | error e => rfl
      | ok move =>
          obtain ⟨machine, returns, _ | next⟩ := move
          · rfl
          · exact arrive_flat (w.moved number machine returns next)

theorem stageFrom_flat (w : Walker) (k : Nat) :
    p.bare.stageFrom (w.flat p.env) k = (p.stageFrom w k).flat p.env := by
  induction k with
  | zero => exact arrive_flat w
  | succ k ih => rw [stageFrom, stageFrom, ih, advance_flat]

theorem stage_flat (k : Nat) :
    p.bare.stage start (m.flat p.env) k = (p.stage start m k).flat p.env :=
  stageFrom_flat (p.walkerAt start m) k

end Program

/-! ## runs over different images -/

section

variable {env env' : Env}

/-- The outcomes are the same but for their machines, which look the same. -/
structure Outcome.LooksLike (env env' : Env) (o o' : Outcome) : Prop where
  machine : Machine.LooksLike env env' o.machine o'.machine
  status : o.status = o'.status
  steps : o.steps = o'.steps
  lastLine : o.lastLine = o'.lastLine
  nextLine : o.nextLine = o'.nextLine

theorem Outcome.looksLike_of_flat {o o' : Outcome} (h : o.flat env = o'.flat env') :
    o.LooksLike env env' o' where
  machine := Machine.looksLike_iff.mpr (congrArg (·.machine) h)
  status := congrArg (·.status) h
  steps := congrArg (·.steps) h
  lastLine := congrArg (·.lastLine) h
  nextLine := congrArg (·.nextLine) h

theorem Walker.looksLike_of_flat {w w' : Walker} (h : w.flat env = w'.flat env') :
    LooksLike env env' w.machine w'.machine ∧ w.lastLine = w'.lastLine :=
  ⟨Machine.looksLike_iff.mpr (congrArg (·.machine) h), congrArg (·.lastLine) h⟩

/-- Outcomes at stages that are the same for flat machines have machines that look the same. -/
theorem Stage.looksLike_of_flat {s s' : Stage} (h : s.flat env = s'.flat env')
    {limit limit' k : Nat} {o o' : Outcome} (ho : s.outcome limit k = .ok o)
    (ho' : s'.outcome limit' k = .ok o') :
    LooksLike env env' o.machine o'.machine ∧ o.lastLine = o'.lastLine := by
  cases s with
  | failed e => cases ho
  | before number line w =>
      cases s' with
      | before number' line' w' =>
          cases ho
          cases ho'
          injection h with _ _ hw
          exact Walker.looksLike_of_flat hw
      | ended | failed => cases h
  | ended status w =>
      cases s' with
      | ended status' w' =>
          cases ho
          cases ho'
          injection h with _ hw
          exact Walker.looksLike_of_flat hw
      | before | failed => cases h

/-- The test of the control does not tell machines apart that look the same. -/
def Control.Blind (env env' : Env) (control : Control) : Prop :=
  ∀ number m n, LooksLike env env' m n → control.stops number m = control.stops number n

theorem Control.Blind.flat {control : Control} (h : control.Blind env env') :
    control.Flattens env control ∧ control.Flattens env' control :=
  ⟨⟨rfl, fun number m => (h number m _ (m.looksLike_flat env').symm).symm⟩,
    ⟨rfl, fun number m => h number _ m (m.looksLike_flat env)⟩⟩

end

namespace Program

variable {p q : Program} {m n : Machine}

/-- Whatever is run in the two programs, from a machine each, cannot be told apart: lines of text,
routines, looks ahead and loops; and where tests tell the machines apart all the same, they still
look the same after as many lines. -/
structure RunsAlike (p q : Program) (m n : Machine) : Prop where
  lines : ∀ lines, Alike (LooksLike p.env q.env) (m.runTexts p.env lines) (n.runTexts q.env lines)
  routines : ∀ start limit (control : Control), control.Blind p.env q.env →
    Alike (Outcome.LooksLike p.env q.env) (p.runSubroutine start m limit control)
      (q.runSubroutine start n limit control)
  ahead : ∀ start limit cancelled, Alike (Outcome.LooksLike p.env q.env)
    (p.lookAhead start m limit cancelled) (q.lookAhead start n limit cancelled)
  loops : ∀ branch label limit cancelled, Alike (Outcome.LooksLike p.env q.env)
    (p.runLoop branch label m limit cancelled) (q.runLoop branch label n limit cancelled)
  anywhere : ∀ start limit limit' test test' o o',
    p.runSubroutine start m limit { stops := test } = .ok o →
    q.runSubroutine start n limit' { stops := test' } = .ok o' → o.steps = o'.steps →
    LooksLike p.env q.env o.machine o'.machine ∧ o.lastLine = o'.lastLine

/-- Programs that differ in their images only run alike from machines that look the same. -/
theorem runsAlike_of_looksLike (same : p.bare = q.bare) (h : LooksLike p.env q.env m n) :
    p.RunsAlike q m n where
  lines := Machine.runTexts_alike (congrArg env same) h
  routines start limit control blind := by
    obtain ⟨left, right⟩ := blind.flat
    refine (alike_of_map_eq ?_).imp fun _ _ => Outcome.looksLike_of_flat
    rw [← runSubroutine_flat left, ← runSubroutine_flat right, Machine.looksLike_iff.mp h, same]
  ahead start limit cancelled := by
    refine (alike_of_map_eq ?_).imp fun _ _ => Outcome.looksLike_of_flat
    rw [← lookAhead_flat, ← lookAhead_flat, Machine.looksLike_iff.mp h, same]
  loops branch label limit cancelled := by
    refine (alike_of_map_eq ?_).imp fun _ _ => Outcome.looksLike_of_flat
    rw [← runLoop_flat, ← runLoop_flat, Machine.looksLike_iff.mp h, same]
  anywhere start limit limit' test test' o o' ho ho' steps := by
    obtain ⟨k, -, hk⟩ := p.runSubroutine_eq_outcome start m limit test
    obtain ⟨j, -, hj⟩ := q.runSubroutine_eq_outcome start n limit' test'
    rw [ho] at hk
    rw [ho'] at hj
    have count : k = j := by
      rw [← Stage.steps_of_outcome hk.symm, ← Stage.steps_of_outcome hj.symm, steps]
    have flats : (p.stage start m k).flat p.env = (q.stage start n j).flat q.env := by
      rw [← stage_flat, ← stage_flat, Machine.looksLike_iff.mp h, same, count]
    rw [count] at hk flats
    exact Stage.looksLike_of_flat flats hk.symm hj.symm

/-- **Image and memory are interchangeable.**  A machine over the image of a program, and one that
holds the image in its own memory, where its own bytes override it, and runs in the program without
an image, cannot be told apart by whatever is run from them. -/
theorem runsAlike_merged (p : Program) (m : Machine) {merged : Memory}
    (hm : ∀ address, merged.get? address =
      (m.memory.get? address).or (p.image.get? address)) :
    p.RunsAlike p.bare m { m with memory := merged } :=
  runsAlike_of_looksLike rfl (Machine.looksLike_merged hm)

/-- Two bytes of data. -/
def dataProgram : Program :=
  ofAnalysis {} (Analysis.ofSource {} "      ORG $4000\nDATA: DB 1, 2" "")

/-- The second of the two bytes has been overwritten. -/
def overwritten : Machine := (Machine.initial {}).store 0x4001 7

theorem runsAlike_merged_overlay :
    (overwritten.memory.overlay dataProgram.image).get? 0x4000 = some 1 ∧
      (overwritten.memory.overlay dataProgram.image).get? 0x4001 = some 7 ∧
      dataProgram.RunsAlike dataProgram.bare overwritten
        { overwritten with memory := overwritten.memory.overlay dataProgram.image } := by
  have stored : overwritten.memory.WellFormed := ((Machine.WellFormed.initial {}).store _ _).memory
  exact ⟨by decide +kernel, by decide +kernel,
    runsAlike_merged dataProgram overwritten (Memory.get?_overlay stored _)⟩

end Program

end Z80Workbench
