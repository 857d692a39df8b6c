import Z80Workbench.Proofs.Machine.Refusal
import Z80Workbench.Proofs.Walk.Moves
import Z80Workbench.Proofs.Walk.Visits

/-!
# Z80Workbench.Proofs.Walk.Replay

A walk through a routine of an analysed source as a replay of its lines.  The visited lines,
executed by their texts one after the other, come to the machine of the walk, unless the walk has
done a call or a jump into the firmware by itself.  The program counters may differ on the way,
since a walk does not come to a transfer that it does not take; the difference never gets into
memory, because a call comes to its own line before it pushes an address.
-/

namespace Z80Workbench

open Text

/-- An operation that takes no condition has none. -/
theorem Instruction.condition_ofArgs {mnemonic : Mnemonic} (h : mnemonic.isConditional = false)
    (args : List Char) : (ofArgs (.mnemonic mnemonic) args).condition = none := by
  show (splitCondition mnemonic (Source.splitOperands args)).1 = none
  unfold splitCondition
  split
  · rfl
  · rw [h, Bool.false_and]
    rfl

/-- The instruction of the line has been read from a text. -/
def CodeLine.IsRead (line : CodeLine) : Prop :=
  ∃ operation args, line.instruction = Instruction.ofArgs operation args

namespace Analysis

/-- Executes a line of the source by its number, as a text at the address of the line. -/
def replay (a : Analysis) (m : Machine) (number : Nat) : Except UnknownRegister Machine :=
  m.runText ⟨⟨a.symbols, Firmware.address?⟩, a.memory⟩ ((a.lines[number - 1]?).getD "")
    (Std.ExtTreeMap.ofList a.layout.addresses compare)[number]?

end Analysis

namespace Program

variable {p : Program} {m n : Machine} {number : Nat} {line : CodeLine}

/-! ## one line by its text -/

/-- The instructions of the lines of a program have been read from texts. -/
theorem isRead_of_line {settings : Settings} {lines : List String} {labels : Labels}
    {symbols : Symbols} {image : Memory} {addresses : List (Nat × Nat)}
    (h : (ofLines settings lines labels symbols image addresses).line? number = some line) :
    line.IsRead := by
  obtain ⟨i, text, _, _, hc⟩ := line?_ofLines h
  obtain ⟨found, operation, _, _, rfl⟩ := codeLine?_eq_some hc
  exact ⟨operation, _, rfl⟩

/-- A line of a program is executed as its text is. -/
theorem runText_of_codeLine {table : Std.ExtTreeMap Nat Nat} {text : String}
    (h : codeLine? table text number = some line) (env : Machine.Env) (m : Machine) :
    m.runText env text table[number]? = m.executeAt env line.instruction line.address := by
  obtain ⟨found, operation, hp, he, rfl⟩ := codeLine?_eq_some h
  have read := Source.instruction?_parseLine? number text
  unfold codeLine? at h
  rw [hp] at h read
  simp only [he, if_true] at h
  obtain ⟨i, hi, same⟩ := Option.map_eq_some_iff.mp h
  cases same
  rw [Option.bind_some, hi] at read
  obtain ⟨first, hf, hfi⟩ := Option.bind_eq_some_iff.mp read.symm
  have executable : first.isExecutable = true := by
    obtain ⟨o, ho, hoi⟩ := Option.map_eq_some_iff.mp hi
    obtain ⟨o', ho', hoi'⟩ := Option.map_eq_some_iff.mp hfi
    have eq : o = o' := congrArg Instruction.operation (hoi.trans hoi'.symm)
    rw [SourceLine.isExecutable, ho', ← eq, ← ho]
    exact he
  rw [Machine.runText, hf]
  show m.runLine env first _ = _
  rw [Machine.runLine, executable, hfi]

/-- To replay a line is to execute it. -/
theorem replay_eq_executeLine {settings : Settings} {a : Analysis}
    (h : (ofAnalysis settings a).line? number = some line) (m : Machine) :
    a.replay m number = (ofAnalysis settings a).executeLine line m := by
  obtain ⟨i, text, hi, ht, hc⟩ := line?_ofLines h
  have place : number - 1 = i := by omega
  rw [Analysis.replay, place, ht]
  exact runText_of_codeLine hc _ m

/-! ## one line of a walk -/

/-- A transfer that is not taken does nothing but come to its line. -/
theorem executeLine_untaken {transfer : Transfer} (read : line.IsRead)
    (ht : line.transfer? = some transfer)
    (untaken : m.flags.allow line.instruction.condition = false) :
    p.executeLine line m = .ok (m.arriveAt line.address) := by
  obtain ⟨operation, args, hi⟩ := read
  have same : line.instruction.operation = operation := by
    rw [hi]
    rfl
  -- those that ignore conditions are read without one, and always taken
  have unconditional (mnemonic : Mnemonic) (hm : mnemonic.isConditional = false) :
      operation ≠ .mnemonic mnemonic := by
    rintro rfl
    rw [hi, Instruction.condition_ofArgs hm] at untaken
    cases untaken
  show (m.arriveAt line.address).execute p.env line.instruction = _
  rw [Machine.execute, same]
  rw [CodeLine.transfer?, same] at ht
  split at ht
  case h_1 | h_3 | h_6 | h_7 => simp [Machine.perform, untaken]
  case h_2 => exact absurd rfl (unconditional .rst rfl)
  case h_4 => exact absurd rfl (unconditional .reti rfl)
  case h_5 => exact absurd rfl (unconditional .retn rfl)
  case h_8 => cases ht

/-- The walk does by itself what the line leads to: a call that is taken but leads to no line, or
a jump into the firmware. -/
def BlackBoxed (p : Program) (visit : Visit) : Prop :=
  visit.before.flags.allow visit.line.instruction.condition = true ∧
    (p.destination visit.before (targetMode? visit.line)).line = none ∧
    (visit.line.transfer? = some .call ∨ visit.line.transfer? = some .jump ∧
      p.isFirmware (p.destination visit.before (targetMode? visit.line)) = true)

/-- A step that does nothing by itself leads to the machine that its line leads to. -/
theorem Stepped.executes {returns : List Nat} {move : Move}
    (h : p.Stepped true number line m returns move) (read : line.IsRead)
    (address : line.address.isSome) (own : ¬ p.BlackBoxed ⟨number, line, m, move.machine⟩)
    (agrees : m.AgreesButPc n) :
    ∃ after, p.executeLine line n = .ok after ∧ move.machine.AgreesButPc after := by
  have executed : p.executeLine line n = p.executeLine line m :=
    (executeLine_congr agrees address).symm
  cases h with
  | untaken ht hc =>
      rw [agrees.flags] at hc
      exact ⟨_, executeLine_untaken read ht hc, agrees.trans (n.agrees_arriveAt _)⟩
  | entered _ _ hx _ | jumped _ _ hx _ | strayed _ _ hx _ _ | counted _ hx | passed _ _ hx =>
      exact ⟨_, executed.trans hx, .refl _⟩
  | returned _ _ hx =>
      rw [Move.machine_leave]
      exact ⟨_, executed.trans hx, .refl _⟩
  | calledAtOnce ht hc _ hd => exact absurd ⟨hc, hd, .inl ht⟩ own
  | tailCalled ht hc _ hd _ hf => exact absurd ⟨hc, hd, .inr ⟨ht, hf⟩⟩ own

/-! ## runs -/

section

variable {settings other : Settings} {source file : String}
  (hp : p = ofAnalysis settings (Analysis.ofSource other source file))
include hp

/-- A visited line is replayed to the machine behind it. -/
theorem Executes.replays {w : Walker} {visit : Visit} {move : Move}
    (h : p.Executes w .routine visit move) (own : ¬ p.BlackBoxed visit)
    (agrees : w.machine.AgreesButPc n) :
    ∃ after, (Analysis.ofSource other source file).replay n visit.number = .ok after ∧
      move.machine.AgreesButPc after := by
  subst hp
  cases h with
  | step he _ hs =>
      have hl := line?_of_executable he
      rw [replay_eq_executeLine hl]
      exact (stepped_of_step hs).executes (isRead_of_line hl)
        (addressed_ofAnalysis settings other source file hl) own agrees

/-- So is a row of visits. -/
theorem Follows.replays {w v : Walker} {visits : List Visit}
    (h : p.Follows .routine w visits v) (own : ∀ visit ∈ visits, ¬ p.BlackBoxed visit)
    (agrees : w.machine.AgreesButPc n) :
    ∃ after, (visits.map (·.number)).foldlM (Analysis.ofSource other source file).replay n =
        .ok after ∧ v.machine.AgreesButPc after := by
  induction h generalizing n with
  | refl w => exact ⟨n, rfl, agrees⟩
  | step hx _ _ ih =>
      obtain ⟨between, hb, ab⟩ := hx.replays hp (own _ List.mem_cons_self) agrees
      obtain ⟨after, ha, aa⟩ := ih (fun visit hv => own visit (List.mem_cons_of_mem _ hv)) ab
      refine ⟨after, ?_, aa⟩
      rw [List.map_cons, List.foldlM_cons]
      exact bind_eq_ok.mpr ⟨between, hb, ha⟩

/-- So is a whole run. -/
theorem Ends.replays {w : Walker} {visits : List Visit} {o : Outcome} {depth : Int}
    (h : p.Ends .routine w visits o depth) (own : ∀ visit ∈ visits, ¬ p.BlackBoxed visit) :
    ∃ after, (visits.map (·.number)).foldlM (Analysis.ofSource other source file).replay
        w.machine = .ok after ∧ o.machine.AgreesButPc after := by
  cases h with
  | stopped hf hm _ _ =>
      rw [hm]
      exact hf.replays hp own (.refl _)
  | left hf hx _ hm _ _ =>
      have before := fun visit hv => own visit (List.mem_append_left _ hv)
      obtain ⟨between, hb, ab⟩ := hf.replays hp before (.refl _)
      have last := own _ (List.mem_append_right _ List.mem_cons_self)
      obtain ⟨after, ha, aa⟩ := hx.replays hp last ab
      refine ⟨after, ?_, hm ▸ aa⟩
      rw [List.map_append, List.foldlM_append]
      refine bind_eq_ok.mpr ⟨between, hb, ?_⟩
      rw [List.map_singleton, List.foldlM_cons]
      exact bind_eq_ok.mpr ⟨after, ha, rfl⟩

end

/-- A run of a routine of an analysed source is a fold over the lines that it visits: if it has
done no call and no jump into the firmware by itself, then executing the texts of these lines in
their order, each at its own address, leads from the same start to a machine that differs from the
one of the run in the program counter at most. -/
theorem runSubroutine_replays {settings other : Settings} {source file : String}
    (hp : p = ofAnalysis settings (Analysis.ofSource other source file)) {start : Start}
    {limit : Option Nat} {control : Control} {o : Outcome}
    (h : p.runSubroutine start m limit control = .ok o) :
    ∃ visits depth,
      p.Ends .routine { line := (p.startLine? start).getD 0, machine := m } visits o depth ∧
      o.steps = visits.length ∧
      ((∀ visit ∈ visits, ¬ p.BlackBoxed visit) →
        ∃ after, (visits.map (·.number)).foldlM (Analysis.ofSource other source file).replay m =
          .ok after ∧ o.machine.AgreesButPc after) := by
  obtain ⟨visits, depth, ends⟩ := ends_of_runSubroutine h
  refine ⟨visits, depth, ends, ?_, ends.replays hp⟩
  rw [ends.steps]
  exact Nat.zero_add _

/-- A routine that calls another one. -/
def callingRoutine : Program :=
  ofAnalysis {} (Analysis.ofSource {} "MAIN: CALL SUB\n      RET\nSUB:  INC A\n      RET" "")

/-- Its only call leads to a line, and there is no jump. -/
theorem not_blackBoxed_callingRoutine {visit : Visit}
    (h : callingRoutine.line? visit.number = some visit.line) :
    ¬ callingRoutine.BlackBoxed visit := by
  have row : (callingRoutine.code.all fun line => line.all fun line =>
      decide (line.transfer? ≠ some .jump) && (decide (line.transfer? ≠ some .call) ||
        decide (targetMode? line = some (.immediate (Expr.ofString "SUB"))))) = true := by
    decide +kernel
  have label : (callingRoutine.atExpression "SUB").line = some 3 := by decide +kernel
  unfold line? at h
  split at h
  case isTrue => cases h
  case isFalse =>
      obtain ⟨place, found⟩ := Array.getElem?_eq_some_iff.mp (Option.join_eq_some_iff.mp h)
      have of := Array.all_eq_true.mp row _ place
      simp only [found, Option.all_some, Bool.and_eq_true, Bool.or_eq_true,
        decide_eq_true_eq] at of
      rintro ⟨_, astray, call | ⟨jump, _⟩⟩
      · rw [of.2.resolve_left (not_not_intro call)] at astray
        cases label.symm.trans astray
      · exact of.1 jump

theorem runSubroutine_replays_calling : ∃ o visits depth after,
    callingRoutine.runSubroutine (.label "MAIN") (Machine.initial {}) none {} = .ok o ∧
      callingRoutine.Ends .routine { line := 1, machine := Machine.initial {} } visits o depth ∧
      (visits.map (·.number)).foldlM
        (Analysis.ofSource {} "MAIN: CALL SUB\n      RET\nSUB:  INC A\n      RET" "").replay
        (Machine.initial {}) = .ok after ∧
      o.machine.AgreesButPc after := by
  have first : callingRoutine.startLine? (.label "MAIN") = some 1 := by decide +kernel
  obtain ⟨o, h⟩ := exists_of_toBool (x := callingRoutine.runSubroutine (.label "MAIN")
    (Machine.initial {}) none {}) (by decide +kernel)
  obtain ⟨visits, depth, ends, _, replays⟩ := runSubroutine_replays (p := callingRoutine) rfl h
  rw [first] at ends
  obtain ⟨after, folded, agrees⟩ :=
    replays fun visit hv => not_blackBoxed_callingRoutine (ends.line? visit hv)
  exact ⟨o, visits, depth, after, h, ends, folded, agrees⟩

end Program

end Z80Workbench
