import Mathlib.Logic.Relation
import Z80Workbench.Proofs.Machine.Counter
import Z80Workbench.Proofs.Walk.Addressed
import Z80Workbench.Walk.Run

/-!
# Z80Workbench.Proofs.Walk.CountedLoop

A counted loop and the walk through the same lines.  The loop counts its passes and B down by
itself, while the walk executes the branch at the end of every pass.  As long as every pass
brings B back to the branch as it was, and takes no jump into the firmware, both execute the same
lines, and their machines differ in the program counter at most.
-/

namespace Z80Workbench

open Text

/-- An operand that is an identifier, and names no register, is a value. -/
theorem Operand.modeOf_identifier {text : List Char} (hi : Source.isIdentifier text)
    (h8 : Reg8.ofName? (String.ofList (upper text)) = none)
    (h16 : Pair.ofName? (String.ofList (upper text)) = none) :
    modeOf text = .immediate (Expr.read text) := by
  have closed : enclosed? text = none := by
    rw [enclosed?, if_neg]
    rintro ⟨hh, _⟩
    cases text with
    | nil => contradiction
    | cons c rest =>
        cases hh
        rw [Source.isIdentifier, Bool.and_eq_true] at hi
        exact absurd hi.1 (by decide)
  rw [modeOf, h8, h16, closed]

/-- The moves lead to the same line, with machines that differ in the program counter at most. -/
structure Move.Agrees (a b : Move) : Prop where
  machine : a.machine.AgreesButPc b.machine
  returns : a.returns = b.returns
  next : a.next = b.next

theorem Move.Agrees.refl (a : Move) : a.Agrees a := ⟨.refl _, rfl, rfl⟩

/-- The walks stand at the same line after as many lines, with machines that differ in the program
counter at most. -/
structure Walker.Agrees (w v : Walker) : Prop where
  line : w.line = v.line
  machine : w.machine.AgreesButPc v.machine
  returns : w.returns = v.returns
  steps : w.steps = v.steps

namespace Program

variable {p : Program}

/-! ## lines that a walk finds -/

/-- The executable line that a walk finds is the line of its number. -/
theorem line?_of_executableFrom {index number : Nat} {line : CodeLine}
    (h : p.executableFrom? index = some (number, line)) : p.line? number = some line := by
  fun_induction executableFrom? p index with
  | case1 index hi found hf =>
      cases h
      simp [line?, hf, hi]
  | case2 index hi hf ih => exact ih h
  | case3 index hi => contradiction

theorem line?_of_executable {start number : Nat} {line : CodeLine}
    (h : p.executable? start = some (number, line)) : p.line? number = some line := by
  unfold executable? at h
  split at h
  · contradiction
  · exact line?_of_executableFrom h

/-! ## one step of both -/

variable {m n : Machine}

/-- The line jumps into the firmware. -/
def JumpsToFirmware (p : Program) (line : CodeLine) (m : Machine) : Prop :=
  (line.instruction.operation = .mnemonic .jp ∨ line.instruction.operation = .mnemonic .jr) ∧
    m.flags.allow line.instruction.condition = true ∧
    (p.destination m (targetMode? line)).line = none ∧
    p.isFirmware (p.destination m (targetMode? line)) = true

/-- Where an operand leads does not depend on the program counter. -/
theorem destination_congr (h : m.AgreesButPc n) (mode : Option Mode) :
    p.destination m mode = p.destination n mode := by
  unfold destination
  split
  · rfl
  · rw [h.hl]
  · rw [h.index]
  · rfl

/-- A line with an address is executed alike. -/
theorem executeLine_congr (h : m.AgreesButPc n) {line : CodeLine} (ha : line.address.isSome) :
    p.executeLine line m = p.executeLine line n := by
  obtain ⟨address, he⟩ := Option.isSome_iff_exists.mp ha
  rw [executeLine, executeLine, he, h.executeAt]

/-- A step that jumps nowhere into the firmware is the same for both ways to treat such jumps. -/
theorem step_congr (h : m.AgreesButPc n) {number : Nat} {line : CodeLine}
    (ha : line.address.isSome) (hj : ¬ p.JumpsToFirmware line m) {returns : List Nat} {move : Move}
    (hs : p.step false number line m returns = .ok move) :
    ∃ other, p.step true number line n returns = .ok other ∧ move.Agrees other := by
  unfold step at hs ⊢
  split at hs
  case h_1 | h_2 =>
      unfold stepCall at hs ⊢
      rw [← h.flags, ← destination_congr h, ← executeLine_congr h ha]
      split at hs
      case isTrue hc =>
          rw [if_pos hc]
          exact ⟨move, hs, .refl _⟩
      case isFalse hc =>
          cases hs
          rw [if_neg hc]
          exact ⟨_, rfl, h, rfl, rfl⟩
  case h_3 | h_4 | h_5 =>
      unfold stepReturn at hs ⊢
      rw [← h.flags, ← executeLine_congr h ha]
      split at hs
      case isTrue hc =>
          rw [if_pos hc]
          exact ⟨move, hs, .refl _⟩
      case isFalse hc =>
          cases hs
          rw [if_neg hc]
          exact ⟨_, rfl, h, rfl, rfl⟩
  case h_6 hop | h_7 hop =>
      unfold stepJump at hs ⊢
      rw [← h.flags, ← destination_congr h, ← executeLine_congr h ha]
      split at hs
      case isTrue hc =>
          rw [if_pos hc]
          refine ⟨move, ?_, .refl _⟩
          rw [← hs]
          dsimp only
          cases hd : (p.destination m (targetMode? line)).line with
          | some target => rfl
          | none =>
              have hf : p.isFirmware (p.destination m (targetMode? line)) = false := by
                rw [← Bool.not_eq_true]
                exact fun hf => hj ⟨by simp [hop], hc, hd, hf⟩
              rw [hf, Bool.and_false, Bool.and_false]
      case isFalse hc =>
          cases hs
          rw [if_neg hc]
          exact ⟨_, rfl, h, rfl, rfl⟩
  case h_8 =>
      unfold stepCount at hs ⊢
      rw [← executeLine_congr h ha]
      exact ⟨move, hs, .refl _⟩
  case h_9 =>
      rw [← executeLine_congr h ha]
      exact ⟨move, hs, .refl _⟩

/-! ## passes -/

/-- The walk stands at the branch. -/
def AtBranch (p : Program) (branch : Nat) (w : Walker) : Prop :=
  ∃ line, p.executable? w.line = some (branch, line)

/-- One line of the body of a loop, which reaches as far as the branch. -/
def BodyStep (p : Program) (branch : Nat) (w v : Walker) : Prop :=
  ∃ number line machine returns next, p.executable? w.line = some (number, line) ∧
    number ≠ branch ∧ p.step false number line w.machine w.returns =
      .ok ⟨machine, returns, some next⟩ ∧ v = w.moved number machine returns next

/-- Any number of lines of the body. -/
def BodyRun (p : Program) (branch : Nat) : Walker → Walker → Prop :=
  Relation.ReflTransGen (p.BodyStep branch)

/-- The start of the next pass, seen from the branch. -/
def nextPass (branch body : Nat) (w : Walker) : Walker :=
  w.moved branch (w.machine.set8 .b (Arithmetic.decrement w.machine.registers.b)) w.returns body

/-- The starts of the passes of a loop, counted from zero. -/
inductive PassStart (p : Program) (branch body : Nat) (first : Walker) : Nat → Walker → Prop where
  | first : PassStart p branch body first 0 first
  | next {k : Nat} {w v : Walker} : PassStart p branch body first k w → p.BodyRun branch w v →
      p.AtBranch branch v → PassStart p branch body first (k + 1) (nextPass branch body v)

/-- From its start, a pass brings B to the branch as it was, and jumps nowhere into the
firmware. -/
structure KeepsCount (p : Program) (branch : Nat) (start : Walker) : Prop where
  count : ∀ w, p.BodyRun branch start w → p.AtBranch branch w →
    w.machine.registers.b = start.machine.registers.b
  stays : ∀ w number line, p.BodyRun branch start w →
    p.executable? w.line = some (number, line) → number ≠ branch →
      ¬ p.JumpsToFirmware line w.machine

/-- The line is a counted branch that leads to another line. -/
structure BranchesTo (p : Program) (body : Nat) (line : CodeLine) : Prop where
  operation : line.instruction.operation = .mnemonic .djnz
  target : ∀ m, (p.destination m (targetMode? line)).line = some body

/-- A counted branch, executed as any other line, counts B down and leads on to the next line if
it becomes zero and to the body otherwise. -/
theorem step_branch {branch body : Nat} {line : CodeLine} (hb : p.BranchesTo body line)
    (ha : line.address.isSome) (m : Machine) (returns : List Nat) :
    ∃ counted, (m.set8 .b (Arithmetic.decrement m.registers.b)).AgreesButPc counted ∧
      p.step true branch line m returns = .ok
        (.goto counted returns
          (if Arithmetic.decrement m.registers.b = 0 then branch + 1 else body)) := by
  obtain ⟨address, he⟩ := Option.isSome_iff_exists.mp ha
  have executed : p.executeLine line m =
      .ok ((m.setPc address).set8 .b (Arithmetic.decrement m.registers.b)) := by
    rw [executeLine, he, Machine.executeAt, Machine.execute, hb.operation]
    rfl
  have left : ((m.setPc address).set8 .b (Arithmetic.decrement m.registers.b)).registers.b =
      Arithmetic.decrement m.registers.b := by
    show Arithmetic.decrement m.registers.b % 256 = Arithmetic.decrement m.registers.b
    unfold Arithmetic.decrement
    omega
  refine ⟨(m.setPc address).set8 .b (Arithmetic.decrement m.registers.b), rfl, ?_⟩
  unfold step
  rw [hb.operation]
  dsimp only
  rw [stepCount, executed]
  show (if _ then _ else _ : Except UnknownRegister Move) = _
  rw [left, hb.target, Option.getD_some]
  split <;> rfl

/-! ## the loop and the walk -/

/-- What the walk through the lines of a loop ends with, as the loop ends. -/
structure Finishes (p : Program) (branch : Nat) (loop walk : Outcome) : Prop where
  machine : loop.machine.AgreesButPc walk.machine
  zero : walk.machine.registers.b = 0
  steps : walk.steps = loop.steps
  next : match p.executable? (branch + 1) with
    | none => walk.status = .endOfSource ∧ walk.nextLine = none
    | some (number, _) => walk.status = .stepLimit ∧ walk.nextLine = some number

/-- A walk that nothing stops goes on from line to line. -/
theorem walk_step {v : Walker} {number : Nat} {line : CodeLine} {move : Move} {next : Nat}
    (he : p.executable? v.line = some (number, line))
    (hs : p.step true number line v.machine v.returns = .ok move) (hn : move.next = some next)
    (more : Nat) :
    p.walk {} (more + 1) v = p.walk {} more (v.moved number move.machine move.returns next) := by
  obtain ⟨machine, returns, _⟩ := move
  cases hn
  rw [walk]
  simp [he, hs]

/-- A walk with no line left to execute stops in front of the next one. -/
theorem walk_zero (v : Walker) : ∃ out, p.walk {} 0 v = .ok out ∧ out.machine = v.machine ∧
    out.steps = v.steps ∧ out.lastLine = v.lastLine ∧
    match p.executable? v.line with
    | none => out.status = .endOfSource ∧ out.nextLine = none
    | some (number, _) => out.status = .stepLimit ∧ out.nextLine = some number := by
  rw [walk]
  cases he : p.executable? v.line with
  | none => exact ⟨_, rfl, rfl, rfl, rfl, rfl, rfl⟩
  | some found => exact ⟨_, rfl, rfl, rfl, rfl, rfl, rfl⟩

section

variable {branch body count : Nat} {line : CodeLine} {first w v : Walker}

/-- The walk executes a line of the body as the loop does. -/
theorem walk_body (ha : w.Agrees v) {number : Nat} (he : p.executable? w.line = some (number, line))
    (hl : line.address.isSome) (stays : ¬ p.JumpsToFirmware line w.machine) {machine : Machine}
    {returns : List Nat} {next : Nat}
    (hs : p.step false number line w.machine w.returns = .ok ⟨machine, returns, some next⟩) :
    ∃ u, (∀ more, p.walk {} (more + 1) v = p.walk {} more u) ∧
      (w.moved number machine returns next).Agrees u := by
  obtain ⟨other, ho, hm, hr, hn⟩ := step_congr ha.machine hl stays hs
  rw [ha.returns] at ho
  refine ⟨v.moved number other.machine other.returns next, ?_, ?_⟩
  · exact walk_step (ha.line ▸ he) ho hn.symm
  · exact ⟨rfl, hm, hr, congrArg (· + 1) ha.steps⟩

/-- The walk executes the branch at the end of a pass, and leaves the loop after the last one. -/
theorem walk_branch (ha : w.Agrees v) (he : p.executable? w.line = some (branch, line))
    (hl : line.address.isSome) (hb : p.BranchesTo body line) {passes : Nat}
    (hw : w.machine.registers.b = passes) (positive : 1 ≤ passes) (isByte : passes < 256) :
    ∃ u, (∀ more, p.walk {} (more + 1) v = p.walk {} more u) ∧
      (w.moved branch (w.machine.set8 .b (Arithmetic.decrement passes)) w.returns
        (if passes = 1 then branch + 1 else body)).Agrees u := by
  obtain ⟨counted, hm, hstep⟩ := step_branch hb hl v.machine v.returns
  have hv : v.machine.registers.b = passes := by rw [← ha.machine.b, hw]
  have last : Arithmetic.decrement passes = 0 ↔ passes = 1 := by
    unfold Arithmetic.decrement
    omega
  simp only [hv, last] at hm hstep
  refine ⟨v.moved branch counted v.returns (if passes = 1 then branch + 1 else body), ?_, ?_⟩
  · exact walk_step (ha.line ▸ he) hstep rfl
  · exact ⟨rfl, (ha.machine.set8 .b _).trans hm, ha.returns, congrArg (· + 1) ha.steps⟩

/-- After the last pass, the walk stops behind the branch. -/
theorem finishes_of_agrees {m : Machine} (hm : m.registers.b = 0) {returns : List Nat}
    (ha : (w.moved branch m returns (branch + 1)).Agrees v) :
    ∃ out, p.walk {} 0 v = .ok out ∧
      p.Finishes branch
        ((w.moved branch m returns body).ended .running (some (branch + 1))) out := by
  obtain ⟨out, hout, hmachine, hsteps, -, hnext⟩ := walk_zero (p := p) v
  refine ⟨out, hout, hmachine ▸ ha.machine, ?_, ?_, ?_⟩
  · rw [hmachine, ← ha.machine.b]
    exact hm
  · rw [hsteps]
    exact ha.steps.symm
  · rw [← ha.line] at hnext
    exact hnext

/-- From any line of any pass on, the walk executes the lines that the loop does. -/
theorem walk_of_walkLoop (addressed : p.Addressed) (hd : p.line? branch = some line)
    (hb : p.BranchesTo body line) (hc : count < 256)
    (keeps : ∀ k < count, ∀ w, p.PassStart branch body first k w → p.KeepsCount branch w)
    {cancelled : Bool} {remaining k passes : Nat} {start : Walker} {o : Outcome}
    (hs : p.PassStart branch body first k start) (hr : p.BodyRun branch start w)
    (hp : k + passes = count) (hone : 1 ≤ passes) (hB : start.machine.registers.b = passes)
    (ha : w.Agrees v) (hrun : p.walkLoop cancelled remaining ⟨branch, body, passes⟩ w = .ok o)
    (hst : o.status = .running) :
    ∃ more out, o.steps = w.steps + more ∧ p.walk {} more v = .ok out ∧
      p.Finishes branch o out := by
  induction remaining generalizing k passes start w v with
  | zero =>
      rw [walkLoop] at hrun
      split at hrun
      · cases hrun; contradiction
      · split at hrun <;> cases hrun <;> contradiction
  | succ remaining ih =>
      rw [walkLoop] at hrun
      split at hrun
      case h_1 => cases hrun; contradiction
      case h_2 number found he =>
          have hl : p.line? number = some found := line?_of_executable he
          have kept := keeps k (by omega) start hs
          split at hrun
          case isTrue => cases hrun; contradiction
          case isFalse =>
              dsimp only at hrun
              split at hrun
              case isTrue hbr =>
                  subst hbr
                  have hline : found = line := Option.some.inj (hl.symm.trans hd)
                  subst hline
                  have hw : w.machine.registers.b = passes := by
                    rw [kept.count w hr ⟨found, he⟩, hB]
                  obtain ⟨u, hwalk, hu⟩ :=
                    walk_branch ha he (addressed hd) hb hw hone (by omega)
                  rw [hw] at hrun
                  have small : Arithmetic.decrement passes = passes - 1 := by
                    unfold Arithmetic.decrement
                    omega
                  have left : (w.machine.set8 .b (Arithmetic.decrement passes)).registers.b =
                      passes - 1 := by
                    show Arithmetic.decrement passes % 256 = passes - 1
                    omega
                  split at hrun
                  case isTrue hlast =>
                      have one : passes = 1 := by omega
                      rw [if_pos one] at hu
                      cases hrun
                      obtain ⟨out, hout, hfin⟩ := finishes_of_agrees (by omega) hu
                      exact ⟨1, out, rfl, by rw [hwalk, hout], hfin⟩
                  case isFalse hmore =>
                      have other : passes ≠ 1 := by omega
                      rw [if_neg other] at hu
                      have next := hs.next hr ⟨found, he⟩
                      rw [nextPass, hw] at next
                      obtain ⟨more, out, hsteps, hout, hfin⟩ :=
                        ih next .refl (by omega) (by omega) left hu hrun
                      refine ⟨more + 1, out, ?_, by rw [hwalk, hout], hfin⟩
                      rw [hsteps, Nat.add_comm more 1, ← Nat.add_assoc]
                      rfl
              case isFalse hbr =>
                  split at hrun
                  case h_1 => contradiction
                  case h_2 => cases hrun; contradiction
                  case h_3 machine returns next hstep =>
                      obtain ⟨u, hwalk, hu⟩ :=
                        walk_body ha he (addressed hl) (kept.stays w number found hr he hbr) hstep
                      have run :=
                        hr.tail ⟨number, found, machine, returns, next, he, hbr, hstep, rfl⟩
                      obtain ⟨more, out, hsteps, hout, hfin⟩ := ih hs run hp hone hB hu hrun
                      refine ⟨more + 1, out, ?_, by rw [hwalk, hout], hfin⟩
                      rw [hsteps, Nat.add_comm more 1, ← Nat.add_assoc]
                      rfl

end

/-- A loop that has run through all its passes and the walk from its first line through as many
lines end alike. -/
theorem runSubroutine_of_runLoop {branch body : Nat} {line : CodeLine} {label : String}
    (addressed : p.Addressed) (hd : p.line? branch = some line) (hb : p.BranchesTo body line)
    (known : p.labelLine? label = some body) {m : Machine} (positive : 1 ≤ m.registers.b)
    (isByte : m.registers.b < 256)
    (keeps : ∀ k < m.registers.b, ∀ w,
      p.PassStart branch body { line := body, machine := m } k w → p.KeepsCount branch w)
    {limit : Option Nat} {cancelled : Bool} {o : Outcome}
    (hrun : p.runLoop branch label m limit cancelled = .ok o) (hst : o.status = .running) :
    ∃ out, p.runSubroutine (.label label) m (some o.steps) {} = .ok out ∧
      p.Finishes branch o out := by
  rw [runLoop, known] at hrun
  dsimp only at hrun
  split at hrun
  case isFalse => cases hrun; contradiction
  case isTrue =>
      rw [if_neg (by omega)] at hrun
      obtain ⟨more, out, hsteps, hwalk, hfin⟩ :=
        walk_of_walkLoop addressed hd hb isByte keeps .first .refl (by omega) positive rfl
          ⟨rfl, .refl m, rfl, rfl⟩ hrun hst
      refine ⟨out, ?_, hfin⟩
      rw [runSubroutine, startLine?, known]
      dsimp only
      rw [Option.getD_some, hsteps, Nat.zero_add]
      exact hwalk

/-! ## loops of an analysed source -/

/-- A counted branch to a label leads to the line of the label. -/
theorem branchesTo_of_label {body : Nat} {line : CodeLine} {text : List Char}
    (hop : line.instruction.operation = .mnemonic .djnz)
    (ht : line.instruction.target? = some (Operand.parse text))
    (hi : Source.isIdentifier (trim text))
    (h8 : Reg8.ofName? (String.ofList (upper (trim text))) = none)
    (h16 : Pair.ofName? (String.ofList (upper (trim text))) = none)
    (known : p.labelLine? (Operand.parse text).text = some body) : p.BranchesTo body line := by
  refine ⟨hop, fun m => ?_⟩
  rw [targetMode?, ht, Option.map_some, Operand.parse, Operand.modeOf_identifier hi h8 h16]
  rw [labelLine?, Operand.parse] at known
  show (p.atExpression (String.ofList (trim text))).line = some body
  rw [atExpression, known]

/-- A counted loop that runs through all its passes does what the walk from its label does in as
many lines, whatever the body is, however it jumps, calls and loops inside. -/
theorem runLoop_agrees {p : Program} {settings other : Settings} {source file : String}
    (hp : p = ofAnalysis settings (Analysis.ofSource other source file))
    {branch body : Nat} {line : CodeLine} {operand : Operand}
    (hd : p.line? branch = some line) (hop : line.instruction.operation = .mnemonic .djnz)
    (ht : line.instruction.target? = some operand)
    (hi : Source.isIdentifier operand.text.toList)
    (h8 : Reg8.ofName? (upperString operand.text) = none)
    (h16 : Pair.ofName? (upperString operand.text) = none)
    (known : p.labelLine? operand.text = some body)
    {m : Machine} (positive : 1 ≤ m.registers.b) (isByte : m.registers.b < 256)
    (keeps : ∀ k < m.registers.b, ∀ w,
      p.PassStart branch body { line := body, machine := m } k w → p.KeepsCount branch w)
    {limit : Option Nat} {cancelled : Bool} {o : Outcome}
    (hrun : p.runLoop branch operand.text m limit cancelled = .ok o)
    (hst : o.status = .running) :
    ∃ out, p.runSubroutine (.label operand.text) m (some o.steps) {} = .ok out ∧
      p.Finishes branch o out := by
  subst hp
  obtain ⟨text, rfl⟩ := exists_of_target hd ht
  have hb := branchesTo_of_label hop ht
    (by simpa [Operand.parse] using hi) (by simpa [Operand.parse, upperString] using h8)
    (by simpa [Operand.parse, upperString] using h16) known
  exact runSubroutine_of_runLoop (addressed_ofAnalysis settings other source file) hd hb known
    positive isByte keeps hrun hst

/-- A loop that counts the accumulator up. -/
def risingLoop : Program :=
  ofAnalysis {} (Analysis.ofSource {} "LOOP: INC A\n      DJNZ LOOP\n      HALT" "")

/-- The body of the loop. -/
def risingBody : CodeLine :=
  ⟨⟨.mnemonic .inc, none, [⟨"A", .reg8 .a⟩], "A"⟩, some 0⟩

/-- The branch of the loop. -/
def risingBranch : CodeLine :=
  ⟨⟨.mnemonic .djnz, none, [⟨"LOOP", .immediate (Expr.ofString "LOOP")⟩], "LOOP"⟩, some 1⟩

theorem risingLoop_first : risingLoop.executable? 1 = some (1, risingBody) := by decide +kernel

theorem risingLoop_second : risingLoop.executable? 2 = some (2, risingBranch) := by
  decide +kernel

/-- From the label of the loop, a walk gets as far as the branch, and leaves B alone. -/
theorem risingLoop_body {w u : Walker} (hw : w.line = 1) (h : risingLoop.BodyRun 2 w u) :
    u = w ∨ u.line = 2 ∧ u.machine.registers.b = w.machine.registers.b := by
  induction h with
  | refl => exact .inl rfl
  | tail _ hs ih =>
      obtain ⟨number, line, machine, returns, next, he, hn, hstep, rfl⟩ := hs
      right
      cases ih with
      | inl hv =>
          rw [hv, hw, risingLoop_first] at he
          cases he
          rw [hv] at hstep
          cases hstep
          exact ⟨rfl, rfl⟩
      | inr hv =>
          rw [hv.1, risingLoop_second] at he
          cases he
          contradiction

/-- Every pass of the loop keeps the count. -/
theorem risingLoop_keeps {m : Machine} {k : Nat} {w : Walker}
    (h : risingLoop.PassStart 2 1 { line := 1, machine := m } k w) :
    risingLoop.KeepsCount 2 w := by
  have hw : w.line = 1 := by cases h <;> rfl
  refine ⟨fun u hu hb => ?_, fun u number line hu he hn hj => ?_⟩
  · cases risingLoop_body hw hu with
    | inl he =>
        obtain ⟨line, hl⟩ := hb
        rw [he, hw, risingLoop_first] at hl
        cases hl
    | inr hr => exact hr.2
  · cases risingLoop_body hw hu with
    | inl hs =>
        rw [hs, hw, risingLoop_first] at he
        cases he
        cases hj.1 <;> contradiction
    | inr hr =>
        rw [hr.1, risingLoop_second] at he
        cases he
        contradiction

theorem runLoop_agrees_rising : ∃ o out,
    risingLoop.runLoop 2 "LOOP" ((Machine.initial {}).set8 .b 2) none false = .ok o ∧
      o.status = .running ∧
      risingLoop.runSubroutine (.label "LOOP") ((Machine.initial {}).set8 .b 2) (some o.steps) {} =
        .ok out ∧
      risingLoop.Finishes 2 o out := by
  have runs : (match risingLoop.runLoop 2 "LOOP" ((Machine.initial {}).set8 .b 2) none false with
      | .ok o => decide (o.status = .running)
      | .error _ => false) = true := by
    decide +kernel
  split at runs
  case h_1 o ho =>
      have hst := of_decide_eq_true runs
      have hd : risingLoop.line? 2 = some risingBranch := line?_of_executable risingLoop_second
      obtain ⟨out, hout⟩ := runLoop_agrees (p := risingLoop) rfl hd rfl rfl (by decide +kernel)
        (by decide +kernel) (by decide +kernel) (by decide +kernel) (by decide) (by decide)
        (fun _ _ _ => risingLoop_keeps) ho hst
      exact ⟨o, out, ho, hst, hout⟩
  case h_2 => contradiction

end Program

end Z80Workbench
