import Z80Workbench.Proofs.Walk.Targets

/-!
# Z80Workbench.Proofs.Walk.CallEffect

What calls do to the video chip.  The walk decides by labels and the firmware limit whether a call
enters a line; the machine decides by the address alone whether it calls one of the three firmware
routines that write video memory.  So a routine of the program that lies at one of their addresses
is entered, and the effect of the firmware routine is there as well; every other call that enters a
line leaves the video chip alone.
-/

namespace Z80Workbench

/-! ## an effect that shows -/

namespace Video

/-- The video chip after its first byte has been written. -/
def marked : Video := Video.initial.store 0 1

theorem marked_ne_initial : marked ≠ Video.initial := by
  intro same
  have first : marked.byteAt 0 = 1 := by
    simp [marked, byteAt, store, Video.initial, vramSize]
  have blank : Video.initial.byteAt 0 = 0 := by
    simp [byteAt, Video.initial, vramSize]
  rw [same, blank] at first
  cases first

end Video

namespace Machine

variable {env : Env} {m : Machine}

/-- The machine with values in its other registers and in memory for which every routine that writes
video memory marks it; index registers and flags are kept. -/
def probe (m : Machine) : Machine where
  registers :=
    { m.registers with a := 1, b := 0, c := 1, d := 0, e := 0, h := 0, l := 0, sp := 0x8000 }
  flags := m.flags
  memory := (∅ : Memory).set 0 1
  video := .initial

/-- A push leaves the first byte of memory alone there. -/
theorem byteAt_push_probe (place : Option Nat) (value : Nat) :
    ((m.probe.arriveAt place).push value).byteAt env 0 = 1 := by
  have memory : (m.probe.arriveAt place).memory = (∅ : Memory).set 0 1 := by
    cases place <;> rfl
  have start : m.probe.registers.sp = 0x8000 := rfl
  have sp : ((m.probe.arriveAt place).registers.sp + 65534) % 65536 = 0x7FFE := by
    rw [sp_arriveAt, start]
  rw [byteAt, memory_push, sp, memory, Memory.get?_set, Memory.get?_set, Memory.get?_set]
  rfl

/-- Every routine that writes video memory marks it there. -/
theorem video_call_probe {target : Option Mode} {address : Nat}
    (found : calledAddress? env target = some address) (routine : address ∈ Firmware.videoRoutines)
    (length : Nat) (place : Option Nat) :
    ((m.probe.arriveAt place).call env length target).video = .marked := by
  have value : (target.bind Mode.expr?).bind env.value? = some address := found
  unfold call
  dsimp only
  rw [value]
  dsimp only
  generalize ((m.probe.arriveAt place).registers.pc + length) % 65536 = back
  have byte : ((m.probe.arriveAt place).push back).byteAt env 0 = 1 :=
    byteAt_push_probe place back
  have video : ((m.probe.arriveAt place).push back).video = .initial := by
    rw [video_push, video_arriveAt]
    rfl
  obtain ⟨pc, sp, registers⟩ : ∃ pc sp, ((m.probe.arriveAt place).push back).registers =
      { m.probe.registers with pc := pc, sp := sp } := by
    cases place <;> exact ⟨_, _, rfl⟩
  generalize (m.probe.arriveAt place).push back = pushed at byte video registers
  have there : (pushed.setPc address).registers =
      { m.probe.registers with pc := address % 65536, sp := sp } := by
    rw [registers_setPc, registers]
  have acc : (pushed.setPc address).registers.a = 1 := by rw [there]; rfl
  have bc : (pushed.setPc address).registers.bc = 1 := by
    simp [there, probe, Registers.bc, wordOf]
  have de : (pushed.setPc address).registers.de = 0 := by
    simp [there, probe, Registers.de, wordOf]
  have hl : (pushed.setPc address).registers.hl = 0 := by
    simp [there, probe, Registers.hl, wordOf]
  have first : (pushed.setPc address).block env 0 1 = [1] := by
    rw [block_one, byteAt_setPc, byte]
  have before : (pushed.setPc address).video = .initial := by rw [video_setPc, video]
  simp only [Firmware.videoRoutines, List.mem_cons, List.not_mem_nil, or_false] at routine
  unfold callFirmware
  obtain rfl | rfl | rfl := routine
  · rw [if_pos rfl]
    dsimp only
    rw [hl, acc, before]
    rfl
  · rw [if_neg (by decide), if_pos rfl]
    dsimp only
    rw [hl, bc, acc, before]
    rfl
  · rw [if_neg (by decide), if_neg (by decide), if_pos rfl]
    dsimp only
    rw [hl, bc, de, before, first]
    rfl

end Machine

namespace Program

variable {p : Program} {tailCalls : Bool} {number : Nat} {line : CodeLine} {m : Machine}
  {returns : List Nat} {move : Move}

/-- The value that the machine finds for the operand of a call from the line. -/
def calledAddress? (p : Program) (line : CodeLine) : Option Nat :=
  Machine.calledAddress? p.env (targetMode? line)

/-- An operand with a value leads to the same place from machines that agree in their index
registers. -/
theorem destination_of_index {n : Machine} {address : Nat}
    (found : p.calledAddress? line = some address)
    (same : ∀ x, m.registers.index x = n.registers.index x) :
    p.destination m (targetMode? line) = p.destination n (targetMode? line) := by
  unfold calledAddress? Machine.calledAddress? at found
  generalize targetMode? line = target at found
  cases target with
  | none => rfl
  | some mode =>
      cases mode with
      | reg8 | reg16 | indirect => cases found
      | indexed x offset =>
          show p.atAddress (m.registers.index x) = p.atAddress (n.registers.index x)
          rw [same x]
      | immediate | absolute => rfl

/-! ## one call -/

/-- Only a call that is taken, and leads the machine to a routine that writes video memory, has an
effect on the video chip. -/
theorem Stepped.video_of_call (h : p.Stepped tailCalls number line m returns move)
    (call : line.transfer? = some .call) :
    move.machine.video = m.video ∨ m.flags.allow line.instruction.condition = true ∧
      ∃ address ∈ Firmware.videoRoutines, p.calledAddress? line = some address := by
  obtain ⟨_, rfl⟩ | ⟨taken, called, hx, goes⟩ := h.of_call call
  · exact .inl rfl
  by_cases effect : ∃ address ∈ Firmware.videoRoutines, p.calledAddress? line = some address
  · exact .inr ⟨taken, effect⟩
  left
  have quiet : ∀ address, Machine.calledAddress? p.env (targetMode? line) = some address →
      address ∉ Firmware.videoRoutines :=
    fun address found routine => effect ⟨address, routine, found⟩
  have executed : called.video = m.video := by
    obtain ⟨length, same⟩ := executeLine_call (p := p) call taken
    cases same.symm.trans hx
    rw [Machine.video_call quiet, Machine.video_arriveAt]
  obtain ⟨target, _, rfl⟩ | ⟨_, rfl⟩ := goes
  · exact executed
  · rw [Move.machine_goto, Machine.video_popPc, executed]

/-- A call that puts a line on the stack of the walk has entered a line. -/
theorem Stepped.entered_of_returns (h : p.Stepped tailCalls number line m returns move)
    (call : line.transfer? = some .call) (pushed : move.returns = (number + 1) :: returns) :
    m.flags.allow line.instruction.condition = true ∧ p.executeLine line m = .ok move.machine ∧
      ∃ target, (p.destination m (targetMode? line)).line = some target := by
  have longer : returns ≠ (number + 1) :: returns := (List.cons_ne_self _ _).symm
  obtain ⟨_, rfl⟩ | ⟨taken, called, hx, ⟨target, hd, rfl⟩ | ⟨_, rfl⟩⟩ := h.of_call call
  · exact absurd pushed longer
  · exact ⟨taken, hx, target, hd⟩
  · exact absurd pushed longer

/-- A call that is taken and finds a line steps into it. -/
theorem step_of_entered (call : line.transfer? = some .call)
    (taken : m.flags.allow line.instruction.condition = true) {target : Nat}
    (enters : (p.destination m (targetMode? line)).line = some target) (tailCalls : Bool)
    (number : Nat) (returns : List Nat) :
    ∃ length, p.step tailCalls number line m returns = .ok (.goto
      ((m.arriveAt line.address).call p.env length (targetMode? line)) ((number + 1) :: returns)
        target) := by
  obtain ⟨length, executed⟩ := executeLine_call (p := p) call taken
  refine ⟨length, ?_⟩
  rw [step_of_call call, stepCall, if_pos taken, executed]
  show Except.ok _ = _
  rw [enters]

/-! ## calls into the program -/

/-- No call from the line that enters a line of the program has an effect on the video chip. -/
def EntersQuietly (p : Program) (line : CodeLine) : Prop :=
  ∀ tailCalls number m returns move, p.step tailCalls number line m returns = .ok move →
    move.returns = (number + 1) :: returns → move.machine.video = m.video

/-- Calls into the program have no effect exactly if the machine finds none of the routines that
write video memory, or the walk finds no line. -/
theorem entersQuietly_iff (call : line.transfer? = some .call) :
    p.EntersQuietly line ↔
      (∀ address ∈ Firmware.videoRoutines, p.calledAddress? line ≠ some address) ∨
      ∀ m : Machine, m.flags.allow line.instruction.condition = true →
        (p.destination m (targetMode? line)).line = none := by
  constructor
  · intro quiet
    by_cases effect : ∀ address ∈ Firmware.videoRoutines, p.calledAddress? line ≠ some address
    · exact .inl effect
    right
    push Not at effect
    obtain ⟨address, routine, found⟩ := effect
    intro m taken
    rw [← Option.not_isSome_iff_eq_none]
    intro enters
    obtain ⟨target, hd⟩ := Option.isSome_iff_exists.mp enters
    -- a machine that comes the same way, but shows the effect
    have same : p.destination m.probe (targetMode? line) = p.destination m (targetMode? line) :=
      destination_of_index found fun x => by cases x <;> rfl
    rw [← same] at hd
    have allowed : m.probe.flags.allow line.instruction.condition = true := taken
    obtain ⟨length, stepped⟩ := step_of_entered call allowed hd true 1 []
    have marked := Machine.video_call_probe (m := m) found routine length line.address
    have still := quiet true 1 m.probe [] _ stepped rfl
    rw [Move.machine_goto, marked] at still
    exact Video.marked_ne_initial still
  · rintro (none | closed) tailCalls number m returns move stepped pushed
    · refine ((stepped_of_step stepped).video_of_call call).resolve_right ?_
      rintro ⟨_, address, routine, found⟩
      exact none address routine found
    · obtain ⟨taken, _, target, hd⟩ := (stepped_of_step stepped).entered_of_returns call pushed
      rw [closed m taken] at hd
      cases hd

/-- The walk knows the address of a line that a plain call enters, and it is what the machine
finds. -/
theorem address_of_entered {settings other : Settings} {source file : String}
    (hp : p = ofAnalysis settings (Analysis.ofSource other source file))
    (hl : p.line? number = some line) (plain : p.PlainTarget line)
    (call : line.transfer? = some .call) {target address : Nat}
    (enters : (p.destination m (targetMode? line)).line = some target)
    (found : p.calledAddress? line = some address) :
    (p.destination m (targetMode? line)).address = some (address : Int) := by
  obtain ⟨mode, hm, register⟩ | ⟨mode, e, known, hm, expression, there, value⟩ :=
    address_of_destination hp hl plain enters
  · have none := plain.register call
    rw [hm, Option.any_some, register] at none
    cases none
  · rw [calledAddress?, hm, calledAddress?_of_address expression, value] at found
    cases found
    exact there

/-- What calls do to the video chip.  Those from a line that enter the program never have an effect
exactly if the machine finds no routine there that writes video memory, or if the walk finds no
line; no other call has an effect either, unless it is taken and the machine finds such a routine;
and in an analysed source, a plain call that enters a line leaves the video chip alone, unless that
line lies at the address of such a routine. -/
theorem call_effect (p : Program) {line : CodeLine} (call : line.transfer? = some .call) :
    (p.EntersQuietly line ↔
      (∀ address ∈ Firmware.videoRoutines, p.calledAddress? line ≠ some address) ∨
      ∀ m : Machine, m.flags.allow line.instruction.condition = true →
        (p.destination m (targetMode? line)).line = none) ∧
    (∀ tailCalls number m returns move, p.step tailCalls number line m returns = .ok move →
      move.machine.video = m.video ∨ m.flags.allow line.instruction.condition = true ∧
        ∃ address ∈ Firmware.videoRoutines, p.calledAddress? line = some address) ∧
    ∀ settings other source file number,
      p = ofAnalysis settings (Analysis.ofSource other source file) →
      p.line? number = some line → p.PlainTarget line →
      ∀ tailCalls m returns move, p.step tailCalls number line m returns = .ok move →
        move.returns = (number + 1) :: returns →
        move.machine.video = m.video ∨ ∃ address ∈ Firmware.videoRoutines,
          (p.destination m (targetMode? line)).address = some (address : Int) := by
  refine ⟨entersQuietly_iff call, ?every, ?analysed⟩
  case every =>
      intro tailCalls number m returns move stepped
      exact (stepped_of_step stepped).video_of_call call
  case analysed =>
      intro settings other source file number hp hl plain tailCalls m returns move stepped pushed
      have step := stepped_of_step stepped
      obtain ⟨_, _, target, enters⟩ := step.entered_of_returns call pushed
      refine (step.video_of_call call).imp_right ?_
      rintro ⟨_, address, routine, found⟩
      exact ⟨address, routine, address_of_entered hp hl plain call enters found⟩

theorem call_effect_offset : offsetCall.EntersQuietly offsetLine := by
  have found : offsetCall.calledAddress? offsetLine = some 0x4005 := by decide +kernel
  refine (call_effect offsetCall rfl).1.mpr (.inl ?_)
  rw [found]
  decide

/-- A routine of the program at the address of the firmware routine that writes a byte. -/
def lowCall : Program :=
  ofAnalysis {} (Analysis.ofSource {}
    "      ORG $004D\nUSER: RET\n      ORG $4000\nMAIN: CALL USER\n      RET" "")

/-- The line that calls it. -/
def lowLine : CodeLine :=
  ⟨⟨.mnemonic .call, none, [⟨"USER", .immediate (Expr.ofString "USER")⟩], "USER"⟩, some 0x4000⟩

/-- The call enters the routine, and video memory is written as well. -/
theorem lowCall_marks : lowCall.line? 4 = some lowLine ∧
    ∃ move, lowCall.step true 4 lowLine (Machine.initial {}).probe [] = .ok move ∧
      move.returns = [5] ∧ move.next = some 2 ∧
      move.machine.video ≠ (Machine.initial {}).probe.video := by
  refine ⟨by decide +kernel, ?_⟩
  have enters : (lowCall.destination (Machine.initial {}).probe (targetMode? lowLine)).line =
      some 2 := by
    decide +kernel
  have found : Machine.calledAddress? lowCall.env (targetMode? lowLine) =
      some Firmware.writeByte := by
    decide +kernel
  obtain ⟨length, stepped⟩ := step_of_entered rfl rfl enters true 4 []
  refine ⟨_, stepped, rfl, rfl, ?_⟩
  rw [Move.machine_goto, Machine.video_call_probe found (by decide)]
  exact Video.marked_ne_initial

end Program

end Z80Workbench
