import Mathlib.Data.Int.ModEq
import Z80Workbench.Proofs.Walk.Moves
import Z80Workbench.Proofs.Walk.Visits

/-!
# Z80Workbench.Proofs.Walk.CallStack

The lines that a walk returns to, and the stack of the machine.  The walk keeps the former by
itself; the machine pushes and pops the addresses.  Both stay in step: a transfer moves the stack
pointer by one word for each line that it puts on or takes off, and by nothing else, so that the
stack pointer tells the depth of the walk up to what all other lines have done to it.
-/

namespace Z80Workbench

/-- What a line other than a call, return or jump has added to the stack pointer. -/
def Visit.drift (visit : Visit) : Int :=
  if visit.line.transfer?.isSome then 0
  else visit.after.registers.sp - visit.before.registers.sp

/-- What all lines of a walk but its transfers have added to the stack pointer. -/
def drift (visits : List Visit) : Int := (visits.map Visit.drift).sum

@[simp] theorem drift_cons (visit : Visit) (visits : List Visit) :
    drift (visit :: visits) = visit.drift + drift visits := by
  rw [drift, List.map_cons, List.sum_cons]
  rfl

@[simp] theorem drift_append (visits others : List Visit) :
    drift (visits ++ others) = drift visits + drift others := by
  rw [drift, List.map_append, List.sum_append]
  rfl

theorem drift_eq_zero {visits : List Visit} (h : ∀ visit ∈ visits, visit.drift = 0) :
    drift visits = 0 := by
  induction visits with
  | nil => rfl
  | cons visit visits ih =>
      rw [drift_cons, h visit List.mem_cons_self,
        ih fun other ho => h other (List.mem_cons_of_mem visit ho)]
      rfl

namespace Program

variable {p : Program} {m : Machine}

/-! ## one line -/

section

variable {tailCalls : Bool} {number : Nat} {line : CodeLine} {returns : List Nat} {move : Move}

/-- A step moves the stack pointer down by one word for a line that it puts on the stack of the
walk, and up by one for a line that it takes off. -/
theorem Stepped.sp_modEq (h : p.Stepped tailCalls number line m returns move) :
    (move.machine.registers.sp : Int) ≡ m.registers.sp - 2 * (move.depth - returns.length) +
      Visit.drift ⟨number, line, m, move.machine⟩ [ZMOD 65536] := by
  have still (transfer : Transfer) (other : Machine) (ht : line.transfer? = some transfer) :
      Visit.drift ⟨number, line, m, other⟩ = 0 := by
    rw [Visit.drift, ht]
    rfl
  have free (other : Machine) (ht : line.transfer? = none) :
      Visit.drift ⟨number, line, m, other⟩ = other.registers.sp - m.registers.sp := by
    rw [Visit.drift, ht]
    rfl
  rw [Int.ModEq]
  cases h with
  | untaken ht _ =>
      rw [still _ _ ht, Move.depth_goto, Move.machine_goto]
      omega
  | entered ht taken hx _ =>
      obtain ⟨length, called⟩ := executeLine_call (p := p) ht taken
      cases called.symm.trans hx
      rw [still _ _ ht, Move.depth_goto, List.length_cons, Move.machine_goto, Machine.sp_call,
        Machine.sp_arriveAt]
      omega
  | calledAtOnce ht taken hx _ =>
      obtain ⟨length, called⟩ := executeLine_call (p := p) ht taken
      cases called.symm.trans hx
      rw [still _ _ ht, Move.depth_goto, Move.machine_goto, Machine.sp_popPc, Machine.sp_call,
        Machine.sp_arriveAt]
      omega
  | returned ht taken hx =>
      cases (executeLine_ret ht taken).symm.trans hx
      rw [still _ _ ht, Move.depth_leave, Move.machine_leave, Machine.sp_popPc,
        Machine.sp_arriveAt]
      omega
  | jumped ht taken hx _ =>
      cases (executeLine_jump ht taken).symm.trans hx
      rw [still _ _ ht, Move.depth_goto, Move.machine_goto, Machine.sp_jump, Machine.sp_arriveAt]
      omega
  | tailCalled ht taken hx _ _ _ =>
      cases (executeLine_jump ht taken).symm.trans hx
      rw [still _ _ ht, Move.depth_leave, Move.machine_leave, Machine.sp_popPc, Machine.sp_jump,
        Machine.sp_arriveAt]
      omega
  | strayed ht taken hx _ _ =>
      cases (executeLine_jump ht taken).symm.trans hx
      rw [still _ _ ht, Move.depth_goto, Move.machine_goto, Machine.sp_jump, Machine.sp_arriveAt]
      omega
  | counted hop _ =>
      rw [free _ (by rw [CodeLine.transfer?, hop]), Move.depth_goto]
      omega
  | passed ht _ _ =>
      rw [free _ ht, Move.depth_goto]
      omega

end

/-- The stack pointer follows the depth of the walk from line to line. -/
theorem Executes.sp_modEq {route : Route} {w : Walker} {visit : Visit} {move : Move}
    (h : p.Executes w route visit move) :
    (move.machine.registers.sp : Int) ≡ w.machine.registers.sp -
      2 * (move.depth - w.returns.length) + visit.drift [ZMOD 65536] := by
  cases h with
  | step _ _ hs => exact (stepped_of_step hs).sp_modEq
  | pass _ =>
      -- B is counted down, which does not touch the stack
      have still (line : CodeLine) (number : Nat) : Visit.drift ⟨number, line, w.machine,
          w.machine.set8 .b (Arithmetic.decrement w.machine.registers.b)⟩ = 0 := by
        rw [Visit.drift]
        split
        · rfl
        · exact Int.sub_self _
      rw [still, Move.depth_goto, Int.sub_self, Int.mul_zero, Int.sub_zero, Int.add_zero]
      rfl

/-! ## runs -/

/-- The stack pointer of a machine tells the depth of a walk, which has come from another machine
through the lines of a list. -/
def Mirrors (m : Machine) (visits : List Visit) (depth : Int) (n : Machine) : Prop :=
  (n.registers.sp : Int) ≡ m.registers.sp - 2 * depth + drift visits [ZMOD 65536]

/-- It does so after any number of lines. -/
theorem Follows.sp_modEq {route : Route} {w v : Walker} {visits : List Visit}
    (h : p.Follows route w visits v) :
    (v.machine.registers.sp : Int) ≡ w.machine.registers.sp -
      2 * (v.returns.length - w.returns.length) + drift visits [ZMOD 65536] := by
  induction h with
  | refl w =>
      have none : drift [] = 0 := rfl
      rw [none, Int.sub_self, Int.mul_zero, Int.sub_zero, Int.add_zero]
  | @step w v visit move next visits hx hn _ ih =>
      have one := hx.sp_modEq
      have inside : move.depth = move.returns.length := by rw [Move.depth, hn]; rfl
      rw [inside] at one
      rw [drift_cons]
      dsimp only [Walker.moved] at ih
      rw [Int.ModEq] at one ih ⊢
      omega

theorem Follows.mirrors {route : Route} {line : Nat} {w : Walker} {visits : List Visit}
    (h : p.Follows route { line, machine := m } visits w) :
    Mirrors m visits w.returns.length w.machine := by
  have all := h.sp_modEq
  rwa [List.length_nil, Nat.cast_zero, Int.sub_zero] at all

/-- Where a run ends, the stack pointer tells its depth. -/
theorem Ends.mirrors {route : Route} {line : Nat} {visits : List Visit} {o : Outcome}
    {depth : Int} (h : p.Ends route { line, machine := m } visits o depth) :
    Mirrors m visits depth o.machine := by
  cases h with
  | stopped hf hm _ _ =>
      rw [hm]
      exact hf.mirrors
  | @left v visits visit move _ hf hx hn hm _ _ =>
      have before := hf.mirrors
      have last := hx.sp_modEq
      have outside : move.depth = -1 := by rw [Move.depth, hn]; rfl
      rw [outside] at last
      rw [Mirrors, hm, drift_append, drift_cons]
      rw [Mirrors] at before
      rw [Int.ModEq] at before last ⊢
      have none : drift [] = 0 := rfl
      omega

/-- A run that has ended: it has gone through visits from its first line on, and the stack pointer
tells where it is.  If no line but its transfers has moved the stack pointer, only the depth
counts. -/
def EndsMirrored (p : Program) (route : Route) (line : Nat) (m : Machine) (o : Outcome) : Prop :=
  ∃ visits depth, p.Ends route { line, machine := m } visits o depth ∧
    (depth = -1 ↔ o.status = .returned) ∧ Mirrors m visits depth o.machine ∧
    ((∀ visit ∈ visits, visit.drift = 0) →
      (o.machine.registers.sp : Int) ≡ m.registers.sp - 2 * depth [ZMOD 65536])

theorem Ends.mirrored {route : Route} {line : Nat} {visits : List Visit} {o : Outcome} {depth : Int}
    (h : p.Ends route { line, machine := m } visits o depth) : p.EndsMirrored route line m o := by
  refine ⟨visits, depth, h, h.depth_eq_neg_one_iff, h.mirrors, fun neutral => ?_⟩
  have all := h.mirrors
  rwa [Mirrors, drift_eq_zero neutral, Int.add_zero] at all

/-- The lines to return to mirror the stack of the machine.  At every place that a walk comes to,
and where every run of a routine or a loop ends, the stack pointer is that of the start less one
word for each line to return to, up to what the lines other than calls, returns and jumps have
added; and a transfer that neither puts a line on nor takes one off leaves the stack pointer
alone. -/
theorem stack_mirrored (p : Program) (m : Machine) :
    (∀ route line visits w, p.Follows route { line, machine := m } visits w →
      Mirrors m visits w.returns.length w.machine) ∧
    (∀ start limit control o, p.runSubroutine start m limit control = .ok o →
      p.EndsMirrored .routine ((p.startLine? start).getD 0) m o) ∧
    (∀ branch label limit cancelled o, p.runLoop branch label m limit cancelled = .ok o →
      p.EndsMirrored (.loop branch ((p.labelLine? label).getD 0)) ((p.labelLine? label).getD 0)
        m o) ∧
    ∀ route w visit move, p.Executes w route visit move → visit.line.transfer?.isSome →
      move.depth = w.returns.length →
      (move.machine.registers.sp : Int) ≡ w.machine.registers.sp [ZMOD 65536] := by
  refine ⟨?places, ?routine, ?loop, ?still⟩
  case places =>
      intro route line visits w h
      exact h.mirrors
  case routine =>
      intro start limit control o h
      obtain ⟨visits, depth, ends⟩ := ends_of_runSubroutine h
      exact ends.mirrored
  case loop =>
      intro branch label limit cancelled o h
      obtain ⟨visits, depth, ends⟩ := ends_of_runLoop h
      exact ends.mirrored
  case still =>
      intro route w visit move h transfer level
      have one := h.sp_modEq
      rwa [Visit.drift, if_pos transfer, level, Int.sub_self, Int.mul_zero, Int.sub_zero,
        Int.add_zero] at one

/-- A run that stops inside of a routine which it has called. -/
theorem stack_mirrored_inside :
    ∃ o, (ofLines {} ["MAIN: CALL SUB", "RET", "SUB: PUSH HL", "POP HL", "RET"]
        (.ofList [("MAIN", 1), ("SUB", 3)]) ∅ ∅ []).runSubroutine (.label "main")
          (Machine.initial {}) (some 2) {} = .ok o ∧
      (ofLines {} ["MAIN: CALL SUB", "RET", "SUB: PUSH HL", "POP HL", "RET"]
        (.ofList [("MAIN", 1), ("SUB", 3)]) ∅ ∅ []).EndsMirrored .routine 1
          (Machine.initial {}) o := by
  refine (exists_of_toBool ?ends).imp fun o h =>
    ⟨h, (stack_mirrored _ (Machine.initial {})).2.1 (.label "main") (some 2) {} o h⟩
  case ends => decide +kernel

end Program

end Z80Workbench
