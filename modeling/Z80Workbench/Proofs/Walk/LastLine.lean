import Z80Workbench.Proofs.Machine.ProgramCounter
import Z80Workbench.Proofs.Walk.Replay

/-!
# Z80Workbench.Proofs.Walk.LastLine

The program counter where a run ends.  Every line that is executed sets it, to its own address or to
where it transfers control.  A walk executes every line that it visits, except for the transfers
that are not taken: these it passes without coming to them, so that the program counter still tells
of a line before.
-/

namespace Z80Workbench

/-- The line has transferred control: it holds a call, a return or a jump, and its condition has
held. -/
def Visit.Transfers (visit : Visit) : Prop :=
  visit.line.transfer?.isSome ∧
    visit.before.flags.allow visit.line.instruction.condition = true

theorem Visit.not_transfers {visit : Visit} (h : visit.line.transfer? = none) :
    ¬ visit.Transfers := by
  rintro ⟨there, -⟩
  rw [h] at there
  cases there

/-- A line without a transfer has no word that sets the program counter. -/
theorem CodeLine.setsPc_eq_false {line : CodeLine} (h : line.transfer? = none)
    {mnemonic : Mnemonic} (operation : line.instruction.operation = .mnemonic mnemonic) :
    mnemonic.setsPc = false := by
  rw [transfer?, operation] at h
  cases mnemonic with
  | jp | jr | call | rst | ret | reti | retn => cases h
  | _ => rfl

namespace Program

variable {p : Program}

/-! ## one line -/

section

variable {tailCalls : Bool} {number : Nat} {line : CodeLine} {m : Machine} {returns : List Nat}
  {move : Move}

/-- A line that does not transfer control is executed if it holds no transfer, and passed if it
holds one. -/
theorem Stepped.of_not_transfers (h : p.Stepped tailCalls number line m returns move)
    (still : ¬ Visit.Transfers ⟨number, line, m, move.machine⟩) :
    line.transfer? = none ∧ p.executeLine line m = .ok move.machine ∨
      line.transfer?.isSome ∧ m.flags.allow line.instruction.condition = false ∧
        move.machine = m := by
  cases h with
  | untaken transfer untaken => exact .inr ⟨by rw [transfer]; rfl, untaken, rfl⟩
  | entered transfer taken | calledAtOnce transfer taken | returned transfer taken
  | jumped transfer taken | tailCalled transfer taken | strayed transfer taken =>
      exact absurd ⟨by rw [transfer]; rfl, taken⟩ still
  | counted counts hx => exact .inl ⟨by rw [CodeLine.transfer?, counts], hx⟩
  | passed transfer _ hx => exact .inl ⟨transfer, hx⟩

end

section

variable {settings other : Settings} {source file : String}
  (hp : p = ofAnalysis settings (Analysis.ofSource other source file))
include hp

/-- The lines that are visited have the addresses that the layout gives to their numbers. -/
theorem Executes.exists_address {w : Walker} {visit : Visit} {move : Move}
    (h : p.Executes w .routine visit move) : ∃ address, visit.line.address = some address ∧
      (Std.ExtTreeMap.ofList (Analysis.ofSource other source file).layout.addresses
        compare)[visit.number]? = some address := by
  subst hp
  obtain ⟨address, found⟩ := Option.isSome_iff_exists.mp
    (addressed_ofAnalysis settings other source file h.line?)
  obtain ⟨_, _, _, _, hc⟩ := line?_ofLines h.line?
  obtain ⟨_, _, _, _, hv⟩ := codeLine?_eq_some hc
  refine ⟨address, found, ?_⟩
  rw [hv] at found
  exact found

/-- A line that does not transfer control, executed as a text, leaves the program counter at its
address.  The visit has done the same, unless the line holds a transfer: then it has done
nothing. -/
theorem Executes.of_not_transfers {w : Walker} {visit : Visit} {move : Move}
    (h : p.Executes w .routine visit move) (still : ¬ visit.Transfers) {address : Nat}
    (place : visit.line.address = some address) :
    ∃ after, (Analysis.ofSource other source file).replay visit.before visit.number = .ok after ∧
      after.registers.pc = address % 65536 ∧
        (visit.line.transfer? = none ∧ visit.after = after ∨
          visit.line.transfer?.isSome ∧ visit.after = visit.before ∧
            after = visit.before.setPc address) := by
  subst hp
  cases h with
  | step he _ hs =>
      have hl := line?_of_executable he
      rw [replay_eq_executeLine hl]
      obtain ⟨plain, hx⟩ | ⟨transfer, untaken, same⟩ := (stepped_of_step hs).of_not_transfers still
      · have kept := Machine.pc_executeAt (fun _ => CodeLine.setsPc_eq_false plain) hx
        refine ⟨_, hx, ?_, .inl ⟨plain, rfl⟩⟩
        rw [kept, place]
        rfl
      · obtain ⟨_, ht⟩ := Option.isSome_iff_exists.mp transfer
        have passed := executeLine_untaken (p := ofAnalysis settings
          (Analysis.ofSource other source file)) (isRead_of_line hl) ht untaken
        rw [place] at passed
        exact ⟨_, passed, rfl, .inr ⟨transfer, same, rfl⟩⟩

end

/-! ## runs -/

/-- Where a walk has ended: it has executed no line, or it shows the last line that it has executed
and the machine behind it. -/
inductive Shows (p : Program) (w : Walker) (o : Outcome) : Prop where
  | nothing : o.steps = w.steps → o.lastLine = w.lastLine → o.machine = w.machine → Shows p w o
  | last {visits : List Visit} {v : Walker} {visit : Visit} {move : Move} :
      p.Follows .routine w visits v → p.Executes v .routine visit move → o.steps = v.steps + 1 →
      o.lastLine = some visit.number → o.machine = visit.after → Shows p w o

variable {w : Walker} {o : Outcome}

/-- The machine behind a visit of a routine is the one that its step has led to. -/
theorem Executes.after_eq {visit : Visit} {move : Move} (h : p.Executes w .routine visit move) :
    visit.after = move.machine := by
  cases h with
  | step => rfl

/-- A walk that goes on after a line shows what it comes to there. -/
theorem Shows.cons {visit : Visit} {move : Move} {next : Nat}
    (hx : p.Executes w .routine visit move) (hn : move.next = some next)
    (h : p.Shows (w.moved visit.number move.machine move.returns next) o) : p.Shows w o := by
  cases h with
  | nothing steps line machine =>
      exact .last (.refl w) hx steps line (machine.trans hx.after_eq.symm)
  | last hf hl steps line machine => exact .last (.step hx hn hf) hl steps line machine

/-- Every walk shows the last line that it has executed. -/
theorem shows_of_walk {control : Control} {remaining : Nat}
    (h : p.walk control remaining w = .ok o) : p.Shows w o := by
  induction remaining generalizing w with
  | zero =>
      unfold walk at h
      split at h
      · cases h; exact .nothing rfl rfl rfl
      · split at h <;> cases h <;> exact .nothing rfl rfl rfl
  | succ remaining ih =>
      unfold walk at h
      split at h
      case h_1 => cases h; exact .nothing rfl rfl rfl
      case h_2 number line hx =>
          split at h
          · cases h; exact .nothing rfl rfl rfl
          dsimp only at h
          split at h
          · cases h; exact .nothing rfl rfl rfl
          have other : Route.routine.branch? ≠ some number := (Option.some_ne_none number).symm
          split at h
          case h_1 => cases h
          case h_2 hs =>
              cases h
              exact .last (.refl w) (.step hx other hs) rfl rfl rfl
          case h_3 hs => exact (ih h).cons (.step hx other hs) rfl

/-- A run that has executed a line shows the last one. -/
theorem shows_of_runSubroutine {start : Start} {m : Machine} {limit : Option Nat}
    {control : Control} (h : p.runSubroutine start m limit control = .ok o) :
    p.Shows { line := (p.startLine? start).getD 0, machine := m } o := by
  unfold runSubroutine at h
  split at h
  case h_1 unknown =>
      cases h
      exact .nothing rfl rfl rfl
  case h_2 line known =>
      rw [known]
      exact shows_of_walk h

/-- Where a run of a routine of an analysed source ends that has executed a line.  The line has an
address, and executing its text there from the same machine leads to a machine whose program counter
is that address, if it does not transfer control.  The run ends with that machine if the line holds
no transfer, and with the machine before the line if it holds one that was not taken, so that the
program counter tells the line if and only if it holds no transfer or the program counter has been
there before. -/
theorem runSubroutine_pc {settings other : Settings} {source file : String}
    (hp : p = ofAnalysis settings (Analysis.ofSource other source file)) {start : Start}
    {m : Machine} {limit : Option Nat} {control : Control}
    (h : p.runSubroutine start m limit control = .ok o) (ran : 0 < o.steps) :
    ∃ visits v visit move address,
      p.Follows .routine { line := (p.startLine? start).getD 0, machine := m } visits v ∧
      p.Executes v .routine visit move ∧ o.steps = visits.length + 1 ∧
      o.lastLine = some visit.number ∧ o.machine = visit.after ∧
      (Std.ExtTreeMap.ofList (Analysis.ofSource other source file).layout.addresses
        compare)[visit.number]? = some address ∧
      (¬ visit.Transfers →
        ∃ after,
          (Analysis.ofSource other source file).replay visit.before visit.number = .ok after ∧
          after.registers.pc = address % 65536 ∧ o.machine.AgreesButPc after ∧
          (visit.line.transfer? = none → o.machine = after) ∧
          (visit.line.transfer?.isSome → o.machine = visit.before) ∧
          (o.machine.registers.pc = address % 65536 ↔
            visit.line.transfer? = none ∨ visit.before.registers.pc = address % 65536)) := by
  obtain nothing | @⟨visits, v, visit, move, hf, hx, steps, line, machine⟩ :=
    shows_of_runSubroutine h
  · rw [nothing] at ran
    exact absurd ran (Nat.lt_irrefl 0)
  obtain ⟨address, place, table⟩ := hx.exists_address hp
  have counted : v.steps = visits.length := hf.steps.trans (Nat.zero_add _)
  refine ⟨visits, v, visit, move, address, hf, hx, by rw [steps, counted], line, machine, table,
    fun still => ?_⟩
  obtain ⟨after, replayed, pc, ⟨plain, same⟩ | ⟨transfer, same, arrived⟩⟩ :=
    hx.of_not_transfers hp still place
  all_goals refine ⟨after, replayed, pc, ?_⟩
  · rw [machine, same, plain]
    exact ⟨.refl _, fun _ => rfl, nofun, fun _ => .inl rfl, fun _ => pc⟩
  · rw [machine, same, arrived]
    refine ⟨visit.before.agrees_arriveAt (some address), fun plain => ?_, fun _ => rfl,
      fun there => .inr there, fun there => there.resolve_left fun plain => ?_⟩ <;>
      simp [plain] at transfer

/-- A routine with a line that is passed, and a jump that is not taken. -/
def waiting : Analysis :=
  Analysis.ofSource {} "      ORG $4000\nMAIN: INC A\n      JP Z,MAIN\n      RET" ""

theorem runSubroutine_pc_waiting :
    ∃ o, (ofAnalysis {} waiting).runSubroutine (.label "MAIN") (.initial {}) (some 1) {} = .ok o ∧
      o.lastLine = some 2 ∧ o.machine.registers.pc = 0x4000 := by
  obtain ⟨run, plain, found⟩ : ((ofAnalysis {} waiting).runSubroutine (.label "MAIN") (.initial {})
        (some 1) {}).toOption.map (fun o => (o.steps, o.lastLine)) = some (1, some 2) ∧
      ((ofAnalysis {} waiting).line? 2).bind CodeLine.transfer? = none ∧
        (Std.ExtTreeMap.ofList waiting.layout.addresses compare)[2]? = some 0x4000 := by
    decide +kernel
  obtain ⟨o, h, shown⟩ := exists_of_toOption run
  obtain ⟨ran, last⟩ := Prod.mk.inj shown
  obtain ⟨_, _, visit, _, address, _, hx, _, line, _, table, tells⟩ :=
    runSubroutine_pc rfl h (by rw [ran]; decide)
  have number : visit.number = 2 := Option.some.inj (line.symm.trans last)
  have code : (ofAnalysis {} waiting).line? visit.number = some visit.line := hx.line?
  rw [number] at table code
  rw [code] at plain
  have place : address = 0x4000 := Option.some.inj (table.symm.trans found)
  obtain ⟨_, _, _, _, _, _, pc⟩ := tells (Visit.not_transfers plain)
  exact ⟨o, h, last, by rw [pc.mpr (.inl plain), place]⟩

/-- The jump has an address of its own and is not taken, and yet the program counter still is that
of the line before it. -/
theorem runSubroutine_pc_stale :
    (ofAnalysis {} waiting).line? 3 = some ⟨⟨.mnemonic .jp, some .z,
        [⟨"MAIN", .immediate (Expr.ofString "MAIN")⟩], "Z,MAIN"⟩, some 0x4001⟩ ∧
      ∃ o, (ofAnalysis {} waiting).runSubroutine (.label "MAIN") (.initial {}) (some 2) {} = .ok o ∧
        o.lastLine = some 3 ∧ o.machine.flags.allow (some .z) = false ∧
          o.machine.registers.pc = 0x4000 := by
  obtain ⟨there, run⟩ : (ofAnalysis {} waiting).line? 3 = some ⟨⟨.mnemonic .jp, some .z,
        [⟨"MAIN", .immediate (Expr.ofString "MAIN")⟩], "Z,MAIN"⟩, some 0x4001⟩ ∧
      ((ofAnalysis {} waiting).runSubroutine (.label "MAIN") (.initial {}) (some 2)
        {}).toOption.map (fun o => (o.lastLine, o.machine.flags.allow (some .z),
          o.machine.registers.pc)) = some (some 3, false, 0x4000) := by
    decide +kernel
  obtain ⟨o, h, shown⟩ := exists_of_toOption run
  obtain ⟨line, rest⟩ := Prod.mk.inj shown
  obtain ⟨flags, pc⟩ := Prod.mk.inj rest
  exact ⟨there, o, h, line, flags, pc⟩

end Program

end Z80Workbench
