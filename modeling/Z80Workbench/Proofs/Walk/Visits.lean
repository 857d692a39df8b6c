import Z80Workbench.Proofs.Walk.CountedLoop

/-!
# Z80Workbench.Proofs.Walk.Visits

The lines that a run executes, in their order.  A routine and a counted loop go through the same
steps; they differ in what they do about the firmware, and in the branch at which a pass of the
loop ends.  Every outcome of a run is the end of such a row of visits.
-/

namespace Z80Workbench

/-- A line that a walk has executed, with the machine before and after it. -/
structure Visit where
  number : Nat
  line : CodeLine
  before : Machine
  after : Machine

/-- What a walk goes through: a routine, or a counted loop with its branch and the first line of
its body. -/
inductive Route where
  | routine
  | loop (branch body : Nat)
  deriving Repr, DecidableEq

namespace Route

/-- Whether a jump into the firmware returns to the caller. -/
def tailCalls : Route → Bool
  | routine => true
  | loop _ _ => false

/-- The line at which a pass ends. -/
def branch? : Route → Option Nat
  | routine => none
  | loop branch _ => some branch

end Route

/-- The number of lines to return to, and one less than none outside of the outermost routine. -/
def Move.depth (move : Move) : Int := if move.next = none then -1 else move.returns.length

@[simp] theorem Move.depth_goto (machine : Machine) (returns : List Nat) (line : Nat) :
    (goto machine returns line).depth = returns.length := rfl

@[simp] theorem Move.depth_leave (machine : Machine) (returns : List Nat) :
    (leave machine returns).depth = returns.length - 1 := by
  cases returns with
  | nil => rfl
  | cons line returns =>
      show (returns.length : Int) = (returns.length + 1 : Nat) - 1
      omega

namespace Program

variable {p : Program} {route : Route}

/-! ## one line -/

/-- The walk executes the line in front of it, and then makes a move.  At the branch of a loop, B
is counted down and the next pass begins. -/
inductive Executes (p : Program) (w : Walker) : Route → Visit → Move → Prop where
  | step {route : Route} {number : Nat} {line : CodeLine} {move : Move} :
      p.executable? w.line = some (number, line) → route.branch? ≠ some number →
      p.step route.tailCalls number line w.machine w.returns = .ok move →
      Executes p w route ⟨number, line, w.machine, move.machine⟩ move
  | pass {branch body : Nat} {line : CodeLine} : p.executable? w.line = some (branch, line) →
      Executes p w (.loop branch body)
        ⟨branch, line, w.machine,
          w.machine.set8 .b (Arithmetic.decrement w.machine.registers.b)⟩
        (.goto (w.machine.set8 .b (Arithmetic.decrement w.machine.registers.b)) w.returns body)

/-- Only lines of the program are visited. -/
theorem Executes.line? {w : Walker} {visit : Visit} {move : Move}
    (h : p.Executes w route visit move) : p.line? visit.number = some visit.line := by
  cases h with
  | step he _ _ => exact line?_of_executable he
  | pass he => exact line?_of_executable he

/-! ## rows of lines -/

/-- The walk gets from one place to another by visiting the lines of a list one by one. -/
inductive Follows (p : Program) (route : Route) : Walker → List Visit → Walker → Prop where
  | refl (w : Walker) : Follows p route w [] w
  | step {w v : Walker} {visit : Visit} {move : Move} {next : Nat} {visits : List Visit} :
      p.Executes w route visit move → move.next = some next →
      Follows p route (w.moved visit.number move.machine move.returns next) visits v →
      Follows p route w (visit :: visits) v

/-- Every visit is counted. -/
theorem Follows.steps {w v : Walker} {visits : List Visit} (h : p.Follows route w visits v) :
    v.steps = w.steps + visits.length := by
  induction h with
  | refl => rfl
  | step _ _ _ ih =>
      rw [ih, List.length_cons]
      show _ + 1 + _ = _
      omega

theorem Follows.line? {w v : Walker} {visits : List Visit} (h : p.Follows route w visits v) :
    ∀ visit ∈ visits, p.line? visit.number = some visit.line := by
  induction h with
  | refl => exact fun visit hv => absurd hv List.not_mem_nil
  | step hx _ _ ih =>
      intro visit hv
      cases hv with
      | head => exact hx.line?
      | tail _ hv => exact ih visit hv

/-- How a run has ended after its visits: it has stopped in front of a line, with some lines to
return to, or it has left the outermost routine. -/
inductive Ends (p : Program) (route : Route) (w : Walker) : List Visit → Outcome → Int → Prop where
  | stopped {v : Walker} {visits : List Visit} {o : Outcome} : p.Follows route w visits v →
      o.machine = v.machine → o.status ≠ .returned → o.steps = v.steps →
      Ends p route w visits o v.returns.length
  | left {v : Walker} {visits : List Visit} {visit : Visit} {move : Move} {o : Outcome} :
      p.Follows route w visits v → p.Executes v route visit move → move.next = none →
      o.machine = move.machine → o.status = .returned → o.steps = v.steps + 1 →
      Ends p route w (visits ++ [visit]) o (-1)

namespace Ends

variable {w : Walker} {visits : List Visit} {o : Outcome} {depth : Int}

/-- A walk that stops where it is has no visits. -/
theorem here {status : Status} (h : status ≠ .returned) (line : Option Nat) :
    p.Ends route w [] (w.ended status line) w.returns.length :=
  .stopped (.refl w) rfl h rfl

/-- A walk that goes on after a line ends as it goes on. -/
theorem cons {visit : Visit} {move : Move} {next : Nat} (hx : p.Executes w route visit move)
    (hn : move.next = some next)
    (h : p.Ends route (w.moved visit.number move.machine move.returns next) visits o depth) :
    p.Ends route w (visit :: visits) o depth := by
  cases h with
  | stopped hf hm hs hc => exact .stopped (.step hx hn hf) hm hs hc
  | left hf hl he hm hs hc => exact .left (.step hx hn hf) hl he hm hs hc

/-- The lines executed are those visited. -/
theorem steps (h : p.Ends route w visits o depth) : o.steps = w.steps + visits.length := by
  cases h with
  | stopped hf _ _ hc => rw [hc, hf.steps]
  | left hf _ _ _ _ hc =>
      rw [hc, hf.steps, List.length_append, List.length_singleton, Nat.add_assoc]

theorem line? (h : p.Ends route w visits o depth) :
    ∀ visit ∈ visits, p.line? visit.number = some visit.line := by
  cases h with
  | stopped hf _ _ _ => exact hf.line?
  | left hf hx _ _ _ _ =>
      intro visit hv
      obtain hv | hv := List.mem_append.mp hv
      · exact hf.line? visit hv
      · rw [List.mem_singleton.mp hv]
        exact hx.line?

/-- Outside of the outermost routine is where a run has returned to. -/
theorem depth_eq_neg_one_iff (h : p.Ends route w visits o depth) :
    depth = -1 ↔ o.status = .returned := by
  cases h with
  | stopped _ _ hs _ =>
      refine ⟨fun hd => ?_, fun hr => absurd hr hs⟩
      omega
  | left _ _ _ _ hs _ => exact ⟨fun _ => hs, fun _ => rfl⟩

end Ends

/-! ## runs -/

variable {m : Machine} {o : Outcome}

/-- A walk through a routine ends after the lines that it visits. -/
theorem ends_of_walk {control : Control} {remaining : Nat} {w : Walker}
    (h : p.walk control remaining w = .ok o) :
    ∃ visits depth, p.Ends .routine w visits o depth := by
  induction remaining generalizing w with
  | zero =>
      unfold walk at h
      split at h
      · cases h; exact ⟨_, _, .here (by decide) none⟩
      · split at h <;> cases h <;> exact ⟨_, _, .here (by decide) _⟩
  | succ remaining ih =>
      unfold walk at h
      split at h
      case h_1 => cases h; exact ⟨_, _, .here (by decide) none⟩
      case h_2 number line hx =>
          split at h
          · cases h; exact ⟨_, _, .here (by decide) _⟩
          dsimp only at h
          split at h
          · cases h; exact ⟨_, _, .here (by decide) _⟩
          have other : Route.routine.branch? ≠ some number := (Option.some_ne_none number).symm
          split at h
          case h_1 => cases h
          case h_2 hs =>
              cases h
              exact ⟨_, _, .left (.refl w) (.step hx other hs) rfl rfl rfl rfl⟩
          case h_3 hs =>
              obtain ⟨visits, depth, ends⟩ := ih h
              exact ⟨_, _, ends.cons (.step hx other hs) rfl⟩

/-- So does a walk through a counted loop. -/
theorem ends_of_walkLoop {cancelled : Bool} {remaining : Nat} {loop : CountedLoop} {w : Walker}
    (h : p.walkLoop cancelled remaining loop w = .ok o) :
    ∃ visits depth, p.Ends (.loop loop.branch loop.body) w visits o depth := by
  induction remaining generalizing loop w with
  | zero =>
      unfold walkLoop at h
      split at h
      · cases h; exact ⟨_, _, .here (by decide) none⟩
      · split at h <;> cases h <;> exact ⟨_, _, .here (by decide) _⟩
  | succ remaining ih =>
      unfold walkLoop at h
      split at h
      case h_1 => cases h; exact ⟨_, _, .here (by decide) none⟩
      case h_2 number line hx =>
          split at h
          · cases h; exact ⟨_, _, .here (by decide) _⟩
          dsimp only at h
          split at h
          case isTrue hb =>
              subst hb
              split at h
              · cases h
                exact ⟨_, _, (Ends.here (by decide) _).cons (.pass hx) rfl⟩
              · obtain ⟨visits, depth, ends⟩ := ih h
                exact ⟨_, _, ends.cons (.pass hx) rfl⟩
          case isFalse hb =>
              have other : (Route.loop loop.branch loop.body).branch? ≠ some number :=
                fun he => hb (Option.some.inj he).symm
              split at h
              case h_1 => cases h
              case h_2 hs =>
                  cases h
                  exact ⟨_, _, .left (.refl w) (.step hx other hs) rfl rfl rfl rfl⟩
              case h_3 hs =>
                  obtain ⟨visits, depth, ends⟩ := ih h
                  exact ⟨_, _, ends.cons (.step hx other hs) rfl⟩

/-- A run of a routine visits the lines that it counts, from the line where it starts. -/
theorem ends_of_runSubroutine {start : Start} {limit : Option Nat} {control : Control}
    (h : p.runSubroutine start m limit control = .ok o) :
    ∃ visits depth,
      p.Ends .routine { line := (p.startLine? start).getD 0, machine := m } visits o depth := by
  unfold runSubroutine at h
  split at h
  case h_1 unknown =>
      cases h
      exact ⟨[], 0, .stopped (.refl _) rfl nofun rfl⟩
  case h_2 line known =>
      rw [known]
      exact ends_of_walk h

/-- So does a run of a loop, from the first line of its body. -/
theorem ends_of_runLoop {branch : Nat} {label : String} {limit : Option Nat} {cancelled : Bool}
    (h : p.runLoop branch label m limit cancelled = .ok o) :
    ∃ visits depth, p.Ends (.loop branch ((p.labelLine? label).getD 0))
      { line := (p.labelLine? label).getD 0, machine := m } visits o depth := by
  unfold runLoop at h
  split at h
  case h_1 body known =>
      rw [known]
      split at h
      · split at h
        · cases h
          exact ⟨[], 0, .stopped (.refl _) rfl nofun rfl⟩
        · exact ends_of_walkLoop h
      · cases h
        exact ⟨[], 0, .stopped (.refl _) rfl nofun rfl⟩
  case h_2 =>
      cases h
      exact ⟨[], 0, .stopped (.refl _) rfl nofun rfl⟩

end Program

end Z80Workbench
