import Z80Workbench.Proofs.Machine.Inert.Basic

/-!
# Z80Workbench.Proofs.Machine.Inert.Control

Control transfers, ports and block instructions that leave every machine as it is: jumps that lead
nowhere, and ports that are not those of the video chip.  Calls, returns and block instructions
always move a register, the latter because a counter of one is used up at once.
-/

namespace Z80Workbench.Machine

open Mnemonic

variable {env : Env} {m : Machine}

/-! ## control transfers -/

/-- Flags for which a condition holds. -/
def meeting : Option Condition → Flags
  | some .z => { z := true }
  | some .c => { c := true }
  | some .pe => { pv := true }
  | some .m => { s := true }
  | _ => {}

theorem allow_meeting (condition : Option Condition) :
    (meeting condition).allow condition = true := by
  cases condition with
  | none => rfl
  | some condition => cases condition <;> rfl

/-- A blank machine but for flags for which a condition holds. -/
def ready (condition : Option Condition) : Machine := { blank with flags := meeting condition }

theorem wf_ready (condition : Option Condition) : (ready condition).WellFormed :=
  wf_blank.setFlags _

theorem sp_ready (condition : Option Condition) : (ready condition).registers.sp = 0xF380 := rfl

/-- A jump that leads somewhere leads there from everywhere. -/
theorem exists_jump {mode : Mode} (h : mode.isTarget env = true) :
    ∃ address, ∀ pc, (m.setPc pc).jump env (some mode) = m.setPc address := by
  have found : ∀ {e : Expr}, (env.value? e).isSome = true →
      ∃ address, (some e).bind env.value? = some address := Option.isSome_iff_exists.mp
  cases mode with
  | indirect p =>
      cases p with
      | hl => exact ⟨m.registers.hl, fun pc => rfl⟩
      | _ => cases h
  | indexed x offset => exact ⟨m.registers.index x, fun pc => by cases x <;> rfl⟩
  | reg8 | reg16 => cases h
  | immediate e | absolute e =>
      obtain ⟨address, ha⟩ := found h
      refine ⟨address, fun pc => ?_⟩
      simp only [jump, Mode.expr?, ha]
      rfl

theorem jump_of_not_isTarget {mode : Mode} (h : mode.isTarget env = false) :
    m.jump env (some mode) = m := by
  have nowhere : ∀ {e : Expr}, (env.value? e).isSome = false →
      (some e).bind env.value? = none := fun h => Option.not_isSome_iff_eq_none.mp (by simp [h])
  cases mode with
  | indirect p =>
      cases p with
      | hl => cases h
      | _ => rfl
  | indexed x offset => cases h
  | reg8 | reg16 => rfl
  | immediate e | absolute e => simp only [jump, Mode.expr?, nowhere h]

theorem inert_jump (condition : Option Condition) (target : Option Mode) :
    Inert (fun m => .ok (if m.flags.allow condition then m.jump env target else m)) ↔
      target.any (·.isTarget env) = false := by
  refine inert_ok_iff (fun idle m _ => ?_) fun acts => ?_
  · refine ite_eq_right_iff.mpr fun _ => ?_
    cases target with
    | none => rfl
    | some mode => exact jump_of_not_isTarget idle
  · cases target with
    | none => cases acts
    | some mode =>
        -- The jump goes to the same address from wherever it starts, so it starts next to it.
        obtain ⟨address, ha⟩ := exists_jump (m := ready condition) acts
        refine ⟨(ready condition).setPc (address + 1), (wf_ready condition).setPc _, ?_⟩
        intro same
        have jumped := (if_pos (allow_meeting condition)).symm.trans same
        rw [ha] at jumped
        have there : address % 65536 = (address + 1) % 65536 := congrArg (·.registers.pc) jumped
        omega

/-- A conditional transfer that moves the stack pointer is not inert. -/
theorem not_inert_of_sp {f : Machine → Machine} (condition : Option Condition)
    (h : (f (ready condition)).registers.sp ≠ (ready condition).registers.sp) :
    ¬Inert fun m => .ok (if m.flags.allow condition then f m else m) := by
  refine not_inert_of_ne (wf_ready condition) fun same => h ?_
  exact congrArg (·.registers.sp) ((if_pos (allow_meeting condition)).symm.trans same)

theorem not_inert_call (condition : Option Condition) (length : Nat) (target : Option Mode) :
    ¬Inert fun m => .ok (if m.flags.allow condition then m.call env length target else m) := by
  refine not_inert_of_sp condition ?_
  rw [sp_call, sp_ready]
  decide

theorem not_inert_ret (condition : Option Condition) :
    ¬Inert fun m => .ok (if m.flags.allow condition then m.popPc env else m) := by
  refine not_inert_of_sp condition ?_
  rw [sp_popPc, sp_ready]
  decide

/-! ## ports -/

/-- A blank machine in the middle of a pair of control bytes, with the number of the control port in
register C. -/
def latching : Machine :=
  { blank with video := { blank.video with latched := true } }.set8 .c Video.controlPort

theorem wf_latching : latching.WellFormed := by
  refine .set8 (.setVideo wf_blank ?_) _ _
  have chip := wf_blank.video
  exact ⟨chip.size, chip.vram, chip.address, chip.latch⟩

theorem ne_latching (h : m.video.latched = false) : m ≠ latching := by
  rintro rfl
  cases h

/-- A write to the chip ends a pair of control bytes. -/
theorem latched_output? {v written : Video} {port value : Nat} (h : v.latched = true)
    (hw : v.output? port value = some written) : written.latched = false := by
  unfold Video.output? at hw
  split at hw
  case isTrue => cases hw; rfl
  case isFalse =>
      split at hw
      case isTrue =>
          cases hw
          simp only [Video.writeControl, h, Bool.not_true, Bool.false_eq_true, if_false]
          split <;> rfl
      case isFalse => cases hw

/-- A read from the chip ends a pair of control bytes. -/
theorem latched_input? {v read : Video} {port value : Nat}
    (hr : v.input? port = some (value, read)) : read.latched = false := by
  unfold Video.input? at hr
  split at hr
  case isTrue => cases hr; rfl
  case isFalse =>
      split at hr
      case isTrue => cases hr; rfl
      case isFalse => cases hr

theorem isSome_output? (v : Video) (port value : Nat) :
    (v.output? port value).isSome = Video.isPort port := by
  unfold Video.output? Video.isPort
  split
  case isTrue data => simp [data]
  case isFalse data =>
      rw [decide_eq_false data, Bool.false_or]
      split <;> simp [*]

theorem isSome_input? (v : Video) (port : Nat) : (v.input? port).isSome = Video.isPort port := by
  unfold Video.input? Video.isPort
  split
  case isTrue data => simp [data]
  case isFalse data =>
      rw [decide_eq_false data, Bool.false_or]
      split <;> simp [*]

/-- The port of an operand is one of the video chip, if register C holds one. -/
theorem exists_portOf? {port : Mode} (h : port.isVideoPort env = true) :
    ∃ p, latching.portOf? env port = some p ∧ Video.isPort p = true := by
  cases port with
  | indirect p =>
      cases p with
      | c => exact ⟨_, rfl, rfl⟩
      | _ => cases h
  | immediate e | absolute e =>
      rw [Mode.isVideoPort] at h
      cases hv : env.value? e with
      | none => rw [hv] at h; cases h
      | some p => rw [hv] at h; exact ⟨p, hv, h⟩
  | reg8 | reg16 | indexed => cases h

theorem isPort_of_not_isVideoPort {port : Mode} (h : port.isVideoPort env = false) {p : Nat}
    (hp : m.portOf? env port = some p) : Video.isPort p = false := by
  cases port with
  | indirect p =>
      cases p with
      | c => cases h
      | _ => cases hp
  | immediate e | absolute e =>
      have known : env.value? e = some p := hp
      simp only [Mode.isVideoPort, known, Option.any_some] at h
      exact h
  | reg8 | reg16 | indexed => cases hp

theorem inert_input_reg8 (register : Reg8) (port : Mode) :
    Inert (fun m => .ok (m.input env (.reg8 register) port)) ↔ port.isVideoPort env = false := by
  refine inert_ok_iff (fun idle m _ => ?_) fun acts => ?_
  · have ignored : (m.portOf? env port).bind m.video.input? = none := by
      cases hp : m.portOf? env port with
      | none => rfl
      | some p =>
          exact none_of_isSome (isSome_input? m.video p) (isPort_of_not_isVideoPort idle hp)
    exact input_of_none ignored
  · obtain ⟨p, hp, video⟩ := exists_portOf? acts
    obtain ⟨⟨value, read⟩, hr⟩ := exists_of_isSome (isSome_input? latching.video p) video
    refine ⟨latching, wf_latching, ne_latching ?_⟩
    unfold input
    rw [hp, Option.bind_some, hr]
    exact latched_input? hr

theorem inert_input (target port : Mode) :
    Inert (fun m => .ok (m.input env target port)) ↔ inputActs env target port = false := by
  cases target with
  | reg8 register => exact inert_input_reg8 register port
  | _ => exact iff_of_true (fun _ _ => rfl) rfl

theorem inert_output (port source : Mode) :
    Inert (fun m => .ok (m.output env port source)) ↔
      (port.isVideoPort env && source.hasByte env) = false := by
  refine inert_ok_iff (fun idle m _ => ?_) fun acts => ?_
  · unfold output
    split
    case h_1 p value hp hv =>
        have has : source.hasByte env = true := by rw [← m.isSome_byteOf?, hv]; rfl
        rw [has, Bool.and_true] at idle
        have ignored := none_of_isSome (isSome_output? m.video p value)
          (isPort_of_not_isVideoPort idle hp)
        rw [ignored]
        rfl
    case h_2 => rfl
  · obtain ⟨known, has⟩ := Bool.and_eq_true_iff.mp acts
    obtain ⟨p, hp, video⟩ := exists_portOf? known
    obtain ⟨value, hv⟩ := exists_of_isSome (latching.isSome_byteOf? source) has
    obtain ⟨written, hw⟩ := exists_of_isSome (isSome_output? latching.video p value) video
    refine ⟨latching, wf_latching, ne_latching ?_⟩
    rw [output, hp, hv]
    dsimp only
    rw [hw]
    exact latched_output? rfl hw

/-! ## block instructions -/

/-- A block instruction with a counter of one runs once. -/
theorem runs_one (stride : Stride) (range : Nat) : runs stride 1 range = 1 := by
  unfold runs
  cases stride.repeats <;> rfl

theorem iterate_one (step : Machine → Machine) : iterate step 1 m = step m := rfl

/-- A blank machine but for a counter of one in a register. -/
def counting (register : Reg8) : Machine := blank.set8 register 1

theorem wf_counting (register : Reg8) : (counting register).WellFormed := wf_blank.set8 _ _

/-- A machine whose counter is used up is another one. -/
theorem not_inert_of_counter {f : Machine → Machine} (register : Reg8)
    (h : (f (counting register)).registers.get8 register = 0) : ¬Inert fun m => .ok (f m) := by
  refine not_inert_of_ne (wf_counting register) fun same => ?_
  rw [same] at h
  cases register <;> cases h

theorem c_copyByte (down : Bool) : (m.copyByte env down).registers.c =
    lowByte (Arithmetic.move true m.registers.bc) := rfl

theorem c_searchByte (down : Bool) : (m.searchByte env down).registers.c =
    lowByte (Arithmetic.move true m.registers.bc) := rfl

theorem b_sendByte (down : Bool) :
    (m.sendByte env down).registers.b = Arithmetic.decrement m.registers.b := rfl

theorem b_receiveByte (down : Bool) :
    (m.receiveByte down).registers.b = Arithmetic.decrement m.registers.b := by
  unfold receiveByte
  split <;> rfl

theorem not_inert_blockCopy (stride : Stride) : ¬Inert fun m => .ok (m.blockCopy env stride) := by
  refine not_inert_of_counter .c ?_
  have once : runs stride (counting .c).registers.bc 65536 = 1 := runs_one stride 65536
  rw [blockCopy, once, iterate_one, registers_flagBc]
  exact (c_copyByte _).trans (by decide)

theorem not_inert_blockSearch (stride : Stride) :
    ¬Inert fun m => .ok (m.blockSearch env stride) := by
  refine not_inert_of_counter .c ?_
  have once : runs stride (counting .c).registers.bc 65536 = 1 := runs_one stride 65536
  rw [blockSearch, once, registers_flagBc]
  simp only [searchBlock, ite_self]
  exact (c_searchByte _).trans (by decide)

theorem not_inert_blockOutput (stride : Stride) :
    ¬Inert fun m => .ok (m.blockOutput env stride) := by
  refine not_inert_of_counter .b ?_
  have once : runs stride (counting .b).registers.b 256 = 1 := runs_one stride 256
  rw [blockOutput, once, iterate_one, registers_flagB]
  exact (b_sendByte _).trans (by decide)

theorem not_inert_blockInput (stride : Stride) : ¬Inert fun m => .ok (m.blockInput stride) := by
  refine not_inert_of_counter .b ?_
  have once : runs stride (counting .b).registers.b 256 = 1 := runs_one stride 256
  rw [blockInput, once, iterate_one, registers_flagB]
  exact (b_receiveByte _).trans (by decide)

end Z80Workbench.Machine
