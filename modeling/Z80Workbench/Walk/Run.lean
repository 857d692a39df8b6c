import Z80Workbench.Walk.Step

/-!
# Z80Workbench.Walk.Run

Walks through a program: from a line or label until the outermost return, and through a counted
loop until its counter is used up. Every walk has a limit on the lines it executes.

Before each line, in this order: a walk ends if there is no such line, if it has been cancelled,
or if its limit is reached, and it stops, except before its first line, where it is told to.
-/

namespace Z80Workbench

/-- Why a walk has ended. -/
inductive Status where
  | running | returned | stepLimit | cancelled | breakpoint | endOfSource
  deriving Repr, DecidableEq

namespace Status

/-- A status in words. -/
def text : Status → String
  | running => "running"
  | returned => "returned"
  | stepLimit => "step limit exceeded"
  | cancelled => "cancelled"
  | breakpoint => "breakpoint"
  | endOfSource => "end of source"

end Status

/-- The outcome of a walk: the machine, why it ended, how many lines were executed, the last
one, and the one where the walk would go on. -/
structure Outcome where
  machine : Machine
  status : Status
  steps : Nat := 0
  lastLine : Option Nat := none
  nextLine : Option Nat := none

namespace Outcome

/-- Whether the program may be in an endless loop. -/
def mayLoopForever (o : Outcome) : Bool := o.status = .stepLimit

end Outcome

/-- Where a walk starts. -/
inductive Start where
  | label (name : String)
  | line (number : Nat)
  deriving Repr, DecidableEq

/-- A walk between two lines: the next line to look at, the machine, the lines to return to, and
what has been executed. -/
structure Walker where
  line : Nat
  machine : Machine
  returns : List Nat := []
  steps : Nat := 0
  lastLine : Option Nat := none

namespace Walker

/-- The outcome of a walk that ends here. -/
def ended (w : Walker) (status : Status) (nextLine : Option Nat) : Outcome :=
  ⟨w.machine, status, w.steps, w.lastLine, nextLine⟩

/-- The walk after a line has been executed. -/
def moved (w : Walker) (number : Nat) (machine : Machine) (returns : List Nat) (line : Nat) :
    Walker :=
  ⟨line, machine, returns, w.steps + 1, some number⟩

end Walker

/-- What may stop a walk early: cancellation, and a test of the next line and the machine. -/
structure Control where
  cancelled : Bool := false
  stops : Nat → Machine → Bool := fun _ _ => false

namespace Program

/-- Walks until the outermost return, for at most the given number of lines. -/
def walk (p : Program) (control : Control) :
    (remaining : Nat) → Walker → Except UnknownRegister Outcome
  | remaining, w =>
    match p.executable? w.line with
    | none => .ok (w.ended .endOfSource none)
    | some (number, line) =>
      if control.cancelled then .ok (w.ended .cancelled (some number))
      else
        match remaining with
        | 0 => .ok (w.ended .stepLimit (some number))
        | remaining + 1 =>
          if w.steps ≠ 0 && control.stops number w.machine then
            .ok (w.ended .breakpoint (some number))
          else
            match p.step true number line w.machine w.returns with
            | .error e => .error e
            | .ok ⟨machine, returns, none⟩ =>
              .ok ((w.moved number machine returns 0).ended .returned none)
            | .ok ⟨machine, returns, some next⟩ =>
              p.walk control remaining (w.moved number machine returns next)

/-- The line number where a walk starts. -/
def startLine? (p : Program) : Start → Option Nat
  | .label name => p.labelLine? name
  | .line number => if 1 ≤ number ∧ number ≤ p.size then some number else none

/-- Runs a routine until its return. -/
def runSubroutine (p : Program) (start : Start) (m : Machine) (limit : Option Nat)
    (control : Control) : Except UnknownRegister Outcome :=
  match p.startLine? start with
  | none => .ok { machine := m, status := .endOfSource }
  | some line =>
    p.walk control (limit.getD p.settings.subroutineLimit) { line, machine := m }

/-- Runs a routine for the few lines of a look ahead. -/
def lookAhead (p : Program) (start : Start) (m : Machine) (limit : Option Nat)
    (cancelled : Bool) : Except UnknownRegister Outcome :=
  p.runSubroutine start m (some (limit.getD p.settings.lookaheadLimit)) { cancelled }

/-- A counted loop: the line of its branch, the first line of its body, and how often it still
runs. -/
structure CountedLoop where
  branch : Nat
  body : Nat
  passes : Nat

/-- Walks through a loop until no pass is left, for at most the given number of lines. At the
branch, B is counted down and the next pass begins; jumps into the firmware are skipped. -/
def walkLoop (p : Program) (cancelled : Bool) :
    (remaining : Nat) → CountedLoop → Walker → Except UnknownRegister Outcome
  | remaining, loop, w =>
    match p.executable? w.line with
    | none => .ok (w.ended .endOfSource none)
    | some (number, line) =>
      if cancelled then .ok (w.ended .cancelled (some number))
      else
        match remaining with
        | 0 => .ok (w.ended .stepLimit (some number))
        | remaining + 1 =>
          if number = loop.branch then
            let counted := w.machine.set8 .b (Arithmetic.decrement w.machine.registers.b)
            let next := w.moved number counted w.returns loop.body
            if loop.passes ≤ 1 then .ok (next.ended .running (some (loop.branch + 1)))
            else p.walkLoop cancelled remaining { loop with passes := loop.passes - 1 } next
          else
            match p.step false number line w.machine w.returns with
            | .error e => .error e
            | .ok ⟨machine, returns, none⟩ =>
              .ok ((w.moved number machine returns 0).ended .returned none)
            | .ok ⟨machine, returns, some next⟩ =>
              p.walkLoop cancelled remaining loop (w.moved number machine returns next)

/-- Runs the loop that ends at a line and begins at a label, as often as B says. -/
def runLoop (p : Program) (branch : Nat) (label : String) (m : Machine) (limit : Option Nat)
    (cancelled : Bool) : Except UnknownRegister Outcome :=
  match p.labelLine? label with
  | some body =>
    if 1 ≤ branch ∧ branch ≤ p.size then
      if m.registers.b = 0 then
        .ok { machine := m, status := .running, nextLine := some (branch + 1) }
      else
        p.walkLoop cancelled (limit.getD p.settings.loopLimit) ⟨branch, body, m.registers.b⟩
          { line := body, machine := m }
    else .ok { machine := m, status := .endOfSource }
  | none => .ok { machine := m, status := .endOfSource }

end Program

end Z80Workbench
