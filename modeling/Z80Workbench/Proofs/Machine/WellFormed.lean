import Z80Workbench.Machine.Execute

/-!
# Z80Workbench.Proofs.Machine.WellFormed

Machines whose parts are all in range: registers and memory cells hold bytes or words, register R
seven bits, the shadow flags nothing but flags, and video memory has its size.  Every operation
keeps a machine well-formed.  Most write through a setter that cuts a value to its width; the
others are an exchange of parts that are in range already, or a result that is shown to be.
-/

namespace Z80Workbench

/-! ## well-formed parts -/

/-- The bits of the flag byte that are not kept. -/
def Flags.unkept : Nat := 0x3A

/-- The shadow registers are bytes, and no bit of the shadow flags is set that is not kept. -/
structure ShadowBank.WellFormed (bank : ShadowBank) : Prop where
  a : bank.a < 256
  f : bank.f < 256
  b : bank.b < 256
  c : bank.c < 256
  d : bank.d < 256
  e : bank.e < 256
  h : bank.h < 256
  l : bank.l < 256
  flags : bank.f &&& Flags.unkept = 0

/-- The registers are bytes and words, and R has seven bits. -/
structure Registers.WellFormed (regs : Registers) : Prop where
  a : regs.a < 256
  b : regs.b < 256
  c : regs.c < 256
  d : regs.d < 256
  e : regs.e < 256
  h : regs.h < 256
  l : regs.l < 256
  i : regs.i < 256
  r : regs.r < 128
  ix : regs.ix < 65536
  iy : regs.iy < 65536
  sp : regs.sp < 65536
  pc : regs.pc < 65536
  shadow : regs.shadow.WellFormed

/-- The cells are bytes at addresses. -/
def Memory.WellFormed (memory : Memory) : Prop :=
  ∀ address value, memory.cells[address]? = some value → address < 65536 ∧ value < 256

/-- Video memory has its size and holds bytes, its address is one, and half a control pair is a
byte. -/
structure Video.WellFormed (v : Video) : Prop where
  size : v.vram.size = vramSize
  vram : ∀ b ∈ v.vram, b < 256
  address : v.address < vramSize
  latch : v.latch < 256

/-- All parts of the machine are well-formed. -/
structure Machine.WellFormed (m : Machine) : Prop where
  registers : m.registers.WellFormed
  memory : m.memory.WellFormed
  video : m.video.WellFormed

/-! ## registers and flags -/

/-- Bitwise operations on bytes give bytes, and sums and differences are cut to bytes. -/
theorem Arithmetic.accumulator_lt (op : Alu) {a value : Nat} (carry : Bool) (ha : a < 256)
    (hv : value < 256) : (accumulator op a value carry).1 < 256 := by
  cases op with
  | add | adc => exact add8_lt _ _ _
  | sub | sbc => exact sub8_lt _ _ _
  | cp => exact ha
  | and => exact Nat.and_lt_two_pow (n := 8) a hv
  | or => exact Nat.or_lt_two_pow (n := 8) ha hv
  | xor => exact Nat.xor_lt_two_pow (n := 8) ha hv

theorem Flags.toByte_and_unkept (f : Flags) : f.toByte &&& unkept = 0 := by
  obtain ⟨z, s, c, pv⟩ := f
  cases z <;> cases s <;> cases c <;> cases pv <;> decide

namespace Registers.WellFormed

variable {regs : Registers} (wf : regs.WellFormed)
include wf

theorem get8_lt (register : Reg8) : regs.get8 register < 256 := by
  cases register with
  | r => exact Nat.lt_trans wf.r (by decide)
  | a => exact wf.a
  | b => exact wf.b
  | c => exact wf.c
  | d => exact wf.d
  | e => exact wf.e
  | h => exact wf.h
  | l => exact wf.l
  | i => exact wf.i

theorem set8 (register : Reg8) (value : Nat) : (regs.set8 register value).WellFormed := by
  have small : value % 256 < 256 := Nat.mod_lt _ (by decide)
  cases register with
  | r => exact { wf with r := Nat.mod_lt _ (by decide) }
  | a => exact { wf with a := small }
  | b => exact { wf with b := small }
  | c => exact { wf with c := small }
  | d => exact { wf with d := small }
  | e => exact { wf with e := small }
  | h => exact { wf with h := small }
  | l => exact { wf with l := small }
  | i => exact { wf with i := small }

theorem setBc (value : Nat) : (regs.setBc value).WellFormed :=
  { wf with b := highByte_lt _, c := lowByte_lt _ }

theorem setDe (value : Nat) : (regs.setDe value).WellFormed :=
  { wf with d := highByte_lt _, e := lowByte_lt _ }

theorem setHl (value : Nat) : (regs.setHl value).WellFormed :=
  { wf with h := highByte_lt _, l := lowByte_lt _ }

theorem setIndex (x : Index) (value : Nat) : (regs.setIndex x value).WellFormed := by
  have small : value % 65536 < 65536 := Nat.mod_lt _ (by decide)
  cases x with
  | ix => exact { wf with ix := small }
  | iy => exact { wf with iy := small }

theorem setPair? {p : Pair} {value : Nat} {written : Registers}
    (h : regs.setPair? p value = some written) : written.WellFormed := by
  cases p with
  | bc => cases h; exact wf.setBc value
  | de => cases h; exact wf.setDe value
  | hl => cases h; exact wf.setHl value
  | sp => cases h; exact { wf with sp := Nat.mod_lt _ (by decide) }
  | index x => cases h; exact wf.setIndex x value
  | af | afShadow => cases h

theorem setPair?_getD (p : Pair) (value : Nat) :
    ((regs.setPair? p value).getD regs).WellFormed := by
  cases h : regs.setPair? p value with
  | none => exact wf
  | some written => exact wf.setPair? h

theorem hl_lt : regs.hl < 65536 := by
  have high := wf.h
  have low := wf.l
  show wordOf regs.h regs.l < 65536
  unfold wordOf
  omega

theorem de_lt : regs.de < 65536 := by
  have high := wf.d
  have low := wf.e
  unfold Registers.de wordOf
  omega

theorem bc_lt : regs.bc < 65536 := by
  have high := wf.b
  have low := wf.c
  unfold Registers.bc wordOf
  omega

theorem index_lt (x : Index) : regs.index x < 65536 := by
  cases x with
  | ix => exact wf.ix
  | iy => exact wf.iy

end Registers.WellFormed

/-! ## memory -/

namespace Memory.WellFormed

variable {memory : Memory}

theorem empty : (∅ : Memory).WellFormed := by
  intro address value h
  have absent : (∅ : Std.ExtTreeMap Nat Nat)[address]? = some value := h
  simp at absent

theorem get?_lt (wf : memory.WellFormed) {address value : Nat}
    (h : memory.get? address = some value) : value < 256 :=
  (wf _ value h).2

theorem set (wf : memory.WellFormed) (address value : Nat) :
    (memory.set address value).WellFormed := by
  intro other found h
  rw [Memory.set, Std.ExtTreeMap.getElem?_insert] at h
  split at h
  case isTrue he =>
      cases h
      rw [← Nat.compare_eq_eq.mp he]
      exact ⟨Nat.mod_lt _ (by decide), Nat.mod_lt _ (by decide)⟩
  case isFalse => exact wf other found h

theorem writeSlots (wf : memory.WellFormed) (address : Nat) (slots : List (Option Nat)) :
    (memory.writeSlots address slots).WellFormed := by
  induction slots generalizing memory address with
  | nil => exact wf
  | cons slot rest ih =>
      cases slot with
      | none => exact ih wf (address + 1)
      | some b => exact ih (wf.set address b) (address + 1)

end Memory.WellFormed

/-! ## the video chip -/

namespace Video.WellFormed

variable {v : Video} (wf : v.WellFormed)

theorem initial : Video.initial.WellFormed where
  size := Array.size_replicate
  vram := by
    intro b hb
    rw [Array.eq_of_mem_replicate hb]
    decide
  address := by decide
  latch := by decide

include wf

theorem byteAt_lt (address : Nat) : v.byteAt address < 256 := by
  unfold byteAt
  cases h : v.vram[address % vramSize]? with
  | none => decide
  | some b => exact wf.vram b (Array.mem_of_getElem? h)

theorem store (address value : Nat) : (v.store address value).WellFormed where
  size := (size_store v address value).trans wf.size
  vram := by
    intro b hb
    obtain hb | rfl := Array.mem_or_eq_of_mem_setIfInBounds hb
    · exact wf.vram b hb
    · exact Nat.mod_lt _ (by decide)
  address := wf.address
  latch := wf.latch

theorem advance : v.advance.WellFormed :=
  { wf with address := Nat.mod_lt _ (by decide) }

theorem writeData (value : Nat) : (v.writeData value).WellFormed :=
  (wf.store v.address value).advance

theorem writeControl (value : Nat) : (v.writeControl value).WellFormed := by
  unfold Video.writeControl
  dsimp only
  split
  · exact { wf with latch := Nat.mod_lt _ (by decide) }
  split
  · exact { wf with }
  · -- the byte kept is the low half of the address, six bits of the new one the high half
    have high : value % 256 % 0x40 * 256 < 2 ^ 14 := by omega
    have low : v.latch < 2 ^ 14 := Nat.lt_trans wf.latch (by decide)
    exact { wf with address := Nat.or_lt_two_pow high low }

theorem output? {port value : Nat} {written : Video} (h : v.output? port value = some written) :
    written.WellFormed := by
  unfold Video.output? at h
  split at h
  · cases h; exact wf.writeData value
  split at h
  · cases h; exact wf.writeControl value
  · cases h

theorem output?_getD (port value : Nat) : ((v.output? port value).getD v).WellFormed := by
  cases h : v.output? port value with
  | none => exact wf
  | some written => exact wf.output? h

theorem input? {port value : Nat} {read : Video} (h : v.input? port = some (value, read)) :
    read.WellFormed := by
  unfold Video.input? at h
  split at h
  · cases h; exact wf.advance
  split at h
  · cases h; exact { wf with }
  · cases h

omit wf in
theorem fill (wf : v.WellFormed) (address length value : Nat) :
    (v.fill address length value).WellFormed := by
  induction length generalizing v address with
  | zero => exact wf
  | succ n ih => exact ih (wf.store address value) (address + 1)

omit wf in
theorem load (wf : v.WellFormed) (address : Nat) (bytes : List Nat) :
    (v.load address bytes).WellFormed := by
  induction bytes generalizing v address with
  | nil => exact wf
  | cons b rest ih => exact ih (wf.store address b) (address + 1)

end Video.WellFormed

namespace Machine

variable {env : Env} {m : Machine}

namespace WellFormed

theorem initial (settings : Settings) : (initial settings).WellFormed := by
  have bank : ({} : ShadowBank).WellFormed := by constructor <;> decide
  have fresh : ({} : Registers).WellFormed := by
    constructor
    case shadow => exact bank
    all_goals decide
  exact ⟨{ fresh with sp := Nat.mod_lt _ (by decide) }, .empty, .initial⟩

/-! ## reading and writing the machine -/

section Writing

variable (wf : m.WellFormed)
include wf

theorem pair_lt (p : Pair) : m.pair p < 65536 := by
  cases p with
  | bc => exact wf.registers.bc_lt
  | de => exact wf.registers.de_lt
  | hl => exact wf.registers.hl_lt
  | sp => exact wf.registers.sp
  | index x => exact wf.registers.index_lt x
  | af =>
      have a := wf.registers.a
      have f := m.flags.toByte_lt
      show wordOf m.registers.a m.flags.toByte < 65536
      unfold wordOf
      omega
  | afShadow =>
      have a := wf.registers.shadow.a
      have f := wf.registers.shadow.f
      show wordOf m.registers.shadow.a m.registers.shadow.f < 65536
      unfold wordOf
      omega

theorem setFlags (flags : Flags) : { m with flags }.WellFormed :=
  ⟨wf.registers, wf.memory, wf.video⟩

theorem setRegisters {registers : Registers} (h : registers.WellFormed) :
    { m with registers }.WellFormed :=
  { wf with registers := h }

theorem setVideo {video : Video} (h : video.WellFormed) : { m with video }.WellFormed :=
  { wf with video := h }

theorem set8 (register : Reg8) (value : Nat) : (m.set8 register value).WellFormed :=
  wf.setRegisters (wf.registers.set8 register value)

theorem setA (value : Nat) : (m.setA value).WellFormed := wf.set8 .a value

theorem setHl (value : Nat) : (m.setHl value).WellFormed :=
  wf.setRegisters (wf.registers.setHl value)

theorem setPc (value : Nat) : (m.setPc value).WellFormed :=
  wf.setRegisters { wf.registers with pc := Nat.mod_lt _ (by decide) }

theorem setSp (value : Nat) : (m.setSp value).WellFormed :=
  wf.setRegisters { wf.registers with sp := Nat.mod_lt _ (by decide) }

theorem setAf (value : Nat) : (m.setAf value).WellFormed :=
  ⟨{ wf.registers with a := highByte_lt _ }, wf.memory, wf.video⟩

theorem setPair {p : Pair} {value : Nat} {n : Machine} (h : m.setPair p value = .ok n) :
    n.WellFormed := by
  unfold Machine.setPair at h
  split at h
  · cases h; exact wf.setAf value
  split at h
  case h_1 registers hr => cases h; exact wf.setRegisters (wf.registers.setPair? hr)
  case h_2 => cases h

theorem store (address value : Nat) : (m.store address value).WellFormed :=
  { wf with memory := wf.memory.set address value }

theorem storeWord (address value : Nat) : (m.storeWord address value).WellFormed :=
  (wf.store address _).store (address + 1) _

theorem push (value : Nat) : (m.push value).WellFormed := (wf.setSp _).storeWord _ value

theorem drop : m.drop.WellFormed := wf.setSp _

theorem popPc : (m.popPc env).WellFormed := wf.drop.setPc _

theorem byteAt_lt (hi : env.image.WellFormed) (address : Nat) : m.byteAt env address < 256 := by
  unfold byteAt
  cases hm : m.memory.get? address with
  | some value => exact wf.memory.get?_lt hm
  | none =>
      cases he : env.image.get? address with
      | some value => exact hi.get?_lt he
      | none => decide

theorem byteOf?_lt (hi : env.image.WellFormed) {mode : Mode} {value : Nat}
    (h : m.byteOf? env mode = some value) : value < 256 := by
  have stored (found : (m.addressOf? env mode).map (m.byteAt env) = some value) :
      value < 256 := by
    obtain ⟨address, -, rfl⟩ := Option.map_eq_some_iff.mp found
    exact wf.byteAt_lt hi address
  cases mode with
  | reg8 register => cases h; exact wf.registers.get8_lt register
  | immediate e =>
      obtain ⟨n, -, rfl⟩ := Option.map_eq_some_iff.mp h
      exact lowByte_lt n
  | reg16 p => cases h
  | indirect p | indexed x offset | absolute e => exact stored h

theorem setByte? {mode : Mode} {value : Nat} {n : Machine}
    (h : m.setByte? env mode value = some n) : n.WellFormed := by
  have stored (found : (m.addressOf? env mode).map (m.store · value) = some n) :
      n.WellFormed := by
    obtain ⟨address, -, rfl⟩ := Option.map_eq_some_iff.mp found
    exact wf.store address value
  cases mode with
  | reg8 register => cases h; exact wf.set8 register value
  | immediate e | reg16 p | indirect p | indexed x offset | absolute e => exact stored h

theorem setByte?_getD (mode : Mode) (value : Nat) :
    ((m.setByte? env mode value).getD m).WellFormed := by
  cases h : m.setByte? env mode value with
  | none => exact wf
  | some n => exact wf.setByte? h

/-! ## loads and exchanges -/

theorem loadInterrupt (value : Nat) : (m.loadInterrupt value).WellFormed :=
  (wf.setA value).setFlags _

theorem loadMemory (target source : Mode) : (m.loadMemory env target source).WellFormed := by
  unfold Machine.loadMemory
  split
  · exact wf.storeWord _ _
  · split
    · exact wf.store _ _
    · exact wf
  · exact wf

theorem load (target source : Mode) : (m.load env target source).WellFormed := by
  unfold Machine.load
  split
  · exact wf.loadInterrupt _
  · exact wf.loadInterrupt _
  · split
    · exact wf.set8 _ _
    · exact wf
  · split
    · exact wf.setRegisters (wf.registers.setPair?_getD _ _)
    · exact wf
  · exact wf
  · exact wf.loadMemory _ _

theorem exchangeDeHl : m.exchangeDeHl.WellFormed :=
  wf.setRegisters ((wf.registers.setDe _).setHl _)

/-- The shadow takes the flag byte, which holds nothing but flags. -/
theorem exchangeAf : m.exchangeAf.WellFormed := by
  have flags : lowByte m.af = m.flags.toByte := lowByte_wordOf m.flags.toByte_lt
  have bank : ShadowBank.WellFormed
      { m.registers.shadow with a := highByte m.af, f := lowByte m.af } :=
    { wf.registers.shadow with
      a := highByte_lt _
      f := lowByte_lt _
      flags := flags ▸ m.flags.toByte_and_unkept }
  have exchanged := wf.setAf m.registers.shadow.af
  exact exchanged.setRegisters { exchanged.registers with shadow := bank }

theorem exchangeTop {p : Pair} {n : Machine} (h : m.exchangeTop env p = .ok n) :
    n.WellFormed := by
  unfold Machine.exchangeTop at h
  split at h
  · cases h
  · exact (wf.storeWord _ _).setPair h

theorem exchange {first second : Mode} {n : Machine} (h : m.exchange env first second = .ok n) :
    n.WellFormed := by
  unfold Machine.exchange at h
  split at h
  case h_1 | h_2 => cases h; exact wf.exchangeDeHl
  case h_3 => cases h; exact wf.exchangeAf
  case h_4 =>
      split at h
      · exact wf.exchangeTop h
      · cases h; exact wf

theorem exchangeShadow : m.exchangeShadow.WellFormed := by
  have regs := wf.registers
  have bank := regs.shadow
  exact wf.setRegisters
    { regs with
      b := bank.b, c := bank.c, d := bank.d, e := bank.e, h := bank.h, l := bank.l
      shadow :=
        { bank with
          b := regs.b, c := regs.c, d := regs.d, e := regs.e, h := regs.h, l := regs.l } }

/-! ## arithmetic, rotations and bits -/

theorem accumulate (hi : env.image.WellFormed) (op : Alu) (source : Mode) :
    (m.accumulate env op source).WellFormed := by
  unfold Machine.accumulate
  split
  case h_1 value hv =>
      have result : (Arithmetic.accumulator op m.registers.a value m.flags.c).1 < 256 :=
        Arithmetic.accumulator_lt op _ wf.registers.a (wf.byteOf?_lt hi hv)
      exact ⟨{ wf.registers with a := result }, wf.memory, wf.video⟩
  case h_2 => exact wf

theorem accumulatePair (op : Alu) (p : Pair) (source : Mode) :
    (m.accumulatePair env op p source).WellFormed := by
  unfold Machine.accumulatePair
  dsimp only
  split
  · split
    · exact ⟨wf.registers.setPair?_getD _ _, wf.memory, wf.video⟩
    · exact wf
  · exact wf

theorem arithmetic (hi : env.image.WellFormed) (op : Alu) (modes : List Mode) :
    (m.arithmetic env op modes).WellFormed := by
  unfold Machine.arithmetic
  split
  · exact wf.accumulatePair _ _ _
  · exact wf.accumulate hi _ _
  · exact wf.accumulate hi _ _
  · exact wf

theorem countByte (down : Bool) (mode : Mode) (value : Nat) :
    (m.countByte env down mode value).WellFormed := by
  unfold Machine.countByte
  dsimp only
  split
  case h_1 h => exact (wf.setByte? h).setFlags _
  case h_2 => exact wf

theorem count (down : Bool) (mode : Mode) : (m.count env down mode).WellFormed := by
  unfold Machine.count
  split
  · exact wf.setRegisters (wf.registers.setPair?_getD _ _)
  · exact wf
  · split
    · exact wf.countByte _ _ _
    · exact wf

theorem negate : m.negate.WellFormed :=
  ⟨{ wf.registers with a := Arithmetic.sub8_lt _ _ _ }, wf.memory, wf.video⟩

theorem invert : m.invert.WellFormed := wf.setA _

theorem setCarry (carry : Bool) : (m.setCarry carry).WellFormed := wf.setFlags _

theorem rotate (op : Rotation) : (m.rotate op).WellFormed := (wf.setA _).setCarry _

theorem shift (op : Shift) (mode : Mode) : (m.shift env op mode).WellFormed := by
  unfold Machine.shift
  split
  · exact wf
  · split
    · dsimp only
      split
      case h_1 h => exact (wf.setByte? h).setFlags _
      case h_2 => exact wf
    · exact wf

theorem testBit (value bit : Nat) : (m.testBit value bit).WellFormed := wf.setFlags _

theorem changeBit (action : BitAction) (number mode : Mode) :
    (m.changeBit env action number mode).WellFormed := by
  unfold Machine.changeBit
  split
  · split
    · cases action with
      | test => exact wf.testBit _ _
      | set | reset => exact wf.setByte?_getD _ _
    · exact wf
  · exact wf

theorem setDigits (a value : Nat) : (m.setDigits a value).WellFormed :=
  ((wf.store _ value).setA a).setFlags _

/-! ## control transfers and ports -/

theorem jump (target : Option Mode) : (m.jump env target).WellFormed := by
  unfold Machine.jump
  split
  · exact wf.setPc _
  · exact wf.setPc _
  · split
    · exact wf.setPc _
    · exact wf
  · exact wf

theorem callFirmware (address : Nat) : (m.callFirmware env address).WellFormed := by
  unfold Machine.callFirmware
  dsimp only
  split
  · exact wf.setVideo (wf.video.store _ _)
  split
  · exact wf.setVideo (wf.video.fill _ _ _)
  split
  · exact wf.setVideo (wf.video.load _ _)
  · exact wf

theorem call (length : Nat) (target : Option Mode) : (m.call env length target).WellFormed := by
  unfold Machine.call
  dsimp only
  split
  · exact ((wf.push _).setPc _).callFirmware _
  · exact wf.push _

theorem output (port source : Mode) : (m.output env port source).WellFormed := by
  unfold Machine.output
  split
  · exact wf.setVideo (wf.video.output?_getD _ _)
  · exact wf

theorem input (target port : Mode) : (m.input env target port).WellFormed := by
  unfold Machine.input
  split
  case h_1 register value video h =>
      obtain ⟨p, -, hp⟩ := Option.bind_eq_some_iff.mp h
      exact ⟨wf.registers.set8 _ _, wf.memory, wf.video.input? hp⟩
  case h_2 => exact wf

/-! ## block instructions -/

omit wf in
theorem iterate {step : Machine → Machine} (h : ∀ m : Machine, m.WellFormed → (step m).WellFormed)
    (n : Nat) (wf : m.WellFormed) : (Machine.iterate step n m).WellFormed := by
  induction n generalizing m with
  | zero => exact wf
  | succ n ih => exact ih (h m wf)

theorem countBc : m.countBc.WellFormed := wf.setRegisters (wf.registers.setBc _)

theorem flagBc : m.flagBc.WellFormed := wf.setFlags _

theorem copyByte (down : Bool) : (m.copyByte env down).WellFormed := by
  have copied := wf.store m.registers.de (m.byteAt env m.registers.hl)
  exact (copied.setRegisters ((copied.registers.setHl _).setDe _)).countBc

theorem searchByte (down : Bool) : (m.searchByte env down).WellFormed :=
  ((wf.setHl _).setFlags _).countBc

omit wf in
theorem searchBlock (down : Bool) (n : Nat) (wf : m.WellFormed) :
    (m.searchBlock env down n).WellFormed := by
  induction n generalizing m with
  | zero => exact wf
  | succ n ih =>
      unfold Machine.searchBlock
      dsimp only
      split
      · exact wf.searchByte down
      · exact ih (wf.searchByte down)

theorem countB (down : Bool) : (Machine.countB down m).WellFormed :=
  wf.setRegisters { wf.registers.setHl _ with b := Nat.mod_lt _ (by decide) }

theorem flagB : m.flagB.WellFormed := wf.setFlags _

theorem sendByte (down : Bool) : (m.sendByte env down).WellFormed :=
  (wf.setVideo (wf.video.output?_getD _ _)).countB down

theorem receiveByte (down : Bool) : (m.receiveByte down).WellFormed := by
  unfold Machine.receiveByte
  split
  case h_1 value video h => exact ((wf.store _ value).setVideo (wf.video.input? h)).countB down
  case h_2 => exact wf.countB down

/-! ## all instructions -/

/-- An instruction that does not fail keeps the machine well-formed. -/
theorem perform (hi : env.image.WellFormed) {mnemonic : Mnemonic} {condition : Option Condition}
    {modes : List Mode} {n : Machine} (h : m.perform env mnemonic condition modes = .ok n) :
    n.WellFormed := by
  unfold Machine.perform at h
  split at h
  case h_3 => exact wf.drop.setPair h
  case h_4 => exact wf.exchange h
  all_goals cases h
  case h_1 => exact wf.load _ _
  case h_2 => exact wf.push _
  case h_5 => exact wf.exchangeShadow
  case h_6 => exact wf.arithmetic hi _ _
  case h_7 | h_8 => exact wf.count _ _
  case h_9 => exact wf.negate
  case h_10 => exact wf.invert
  case h_11 | h_12 => exact wf.setCarry _
  case h_13 => exact wf.rotate _
  case h_14 => exact wf.shift _ _
  case h_15 => exact wf.changeBit _ _ _
  case h_16 | h_17 => exact wf.setDigits _ _
  case h_18 | h_19 =>
      split
      · exact wf.jump _
      · exact wf
  case h_20 => exact wf.set8 _ _
  case h_21 =>
      split
      · exact wf.call _ _
      · exact wf
  case h_22 => exact wf.call _ _
  case h_23 =>
      split
      · exact wf.popPc
      · exact wf
  case h_24 | h_25 => exact wf.popPc
  case h_26 => exact wf.input _ _
  case h_27 => exact wf.output _ _
  case h_28 => exact (iterate (fun _ wf => wf.copyByte _) _ wf).flagBc
  case h_29 => exact (searchBlock _ _ wf).flagBc
  case h_30 => exact (iterate (fun _ wf => wf.receiveByte _) _ wf).flagB
  case h_31 => exact (iterate (fun _ wf => wf.sendByte _) _ wf).flagB
  case h_32 => exact wf

theorem execute (hi : env.image.WellFormed) {i : Instruction} {n : Machine}
    (h : m.execute env i = .ok n) : n.WellFormed := by
  unfold Machine.execute at h
  split at h
  case h_1 => exact wf.perform hi h
  case h_2 => cases h; exact wf

theorem executeAt (hi : env.image.WellFormed) {i : Instruction} {address : Option Nat}
    {n : Machine} (h : m.executeAt env i address = .ok n) : n.WellFormed := by
  cases address with
  | none => exact wf.execute hi h
  | some address => exact (wf.setPc address).execute hi h

/-- A line of text that does not fail keeps the machine well-formed. -/
theorem runText (hi : env.image.WellFormed) {text : String} {address : Option Nat} {n : Machine}
    (h : m.runText env text address = .ok n) : n.WellFormed := by
  unfold Machine.runText at h
  split at h
  case h_1 line hl =>
      unfold runLine at h
      split at h
      case h_1 => exact wf.executeAt hi h
      case h_2 => cases h; exact wf
  case h_2 => cases h; exact wf

end Writing

end WellFormed

end Machine

end Z80Workbench
