import Z80Workbench.Proofs.Machine.NoValue
import Z80Workbench.Proofs.Machine.WellFormed

/-!
# Z80Workbench.Proofs.Machine.Inert.Basic

Which instructions do anything at all, read off their operands: `Mnemonic.acts`.  To show that one
does, a machine is needed that it changes.  Two are enough for most of them: one that is blank, so
that whatever is written is seen, and one whose flags are those of no result.
-/

namespace Z80Workbench

open Machine (Env)

/-! ## what acts -/

/-- The port is one of the video chip. -/
def Video.isPort (port : Nat) : Bool := port % 256 = dataPort || port % 256 = controlPort

namespace Mode

/-- The operand has an address in memory. -/
def hasAddress (env : Env) : Mode → Bool
  | indirect p => p.pair?.isSome
  | indexed _ offset => (env.value? (offset.getD zeroOffset)).isSome
  | absolute e => (env.value? e).isSome
  | _ => false

/-- The operand is a register or has an address, so that a byte can be stored there. -/
def isPlace (env : Env) : Mode → Bool
  | reg8 _ => true
  | mode => mode.hasAddress env

theorem isPlace_of_isMemory {env : Env} {mode : Mode} (h : mode.isMemory = true) :
    mode.isPlace env = mode.hasAddress env := by
  cases mode with
  | indirect | indexed | absolute => rfl
  | reg8 | reg16 | immediate => cases h

/-- The operand stands for a byte. -/
def hasByte (env : Env) : Mode → Bool
  | immediate e => (env.value? e).isSome
  | mode => mode.isPlace env

/-- A place holds a byte. -/
theorem hasByte_of_isPlace {env : Env} {mode : Mode} (h : mode.isPlace env = true) :
    mode.hasByte env = true := by
  cases mode with
  | reg16 | immediate => cases h
  | _ => exact h

/-- The operand can be stored: it is a pair or stands for a byte. -/
def isStorable (env : Env) : Mode → Bool
  | reg16 _ => true
  | mode => mode.hasByte env

/-- Other operands than pairs are stored as bytes. -/
theorem isStorable_of_plain {env : Env} {mode : Mode} (plain : ∀ p, mode ≠ .reg16 p) :
    mode.isStorable env = mode.hasByte env := by
  cases mode with
  | reg16 p => exact absurd rfl (plain p)
  | _ => rfl

/-- The operand stands for a word. -/
def hasWord (env : Env) : Mode → Bool
  | reg16 _ => true
  | immediate e | absolute e => (env.value? e).isSome
  | _ => false

/-- The operand leads somewhere. -/
def isTarget (env : Env) : Mode → Bool
  | indirect .hl | indexed _ _ => true
  | mode => (mode.expr?.bind env.value?).isSome

/-- The operand is a port of the video chip, or the register that may hold one. -/
def isVideoPort (env : Env) : Mode → Bool
  | indirect .c => true
  | immediate e | absolute e => (env.value? e).any Video.isPort
  | _ => false

end Mode

namespace Pair

/-- The pair can be written. -/
def isWritable : Pair → Bool
  | af | afShadow => false
  | _ => true

/-- The pair can be added to. -/
def isWide : Pair → Bool
  | hl | index _ => true
  | _ => false

end Pair

/-- The operation is one for words, too. -/
def Alu.isWide : Alu → Bool
  | add | adc | sbc => true
  | _ => false

namespace Mnemonic

/-- A load acts if its destination can be written, its source has a value, and the two are not the
same register. -/
def loadActs (env : Env) : Mode → Mode → Bool
  | .reg8 register, source => source ≠ .reg8 register && source.hasByte env
  | .reg16 p, source => p.isWritable && source ≠ .reg16 p && source.hasWord env
  | target, source => target.hasAddress env && source.isStorable env

/-- An exchange acts on DE and HL, on accumulator and flags and their shadow, and on the top of the
stack and a pair. -/
def exchangeActs (first second : Mode) : Bool :=
  match first.pair?, second.pair? with
  | some .de, some .hl | some .hl, some .de | some .af, some .afShadow => true
  | _, _ =>
    match first, second with
    | .indirect .sp, .reg16 _ => true
    | _, _ => false

/-- Arithmetic acts if its source has a value; on words, only some of the operations do. -/
def arithmeticActs (env : Env) (op : Alu) : List Mode → Bool
  | [.reg16 p, source] => p.isWide && op.isWide && source.hasWord env
  | [_, source] | [source] => source.hasByte env
  | _ => false

/-- Counting acts on a pair that can be written and on a place. -/
def countActs (env : Env) : Mode → Bool
  | .reg16 p => p.isWritable
  | mode => mode.isPlace env

/-- A test of a bit acts on any byte, setting and clearing one act on a place.  Register R has no
bit 7. -/
def bitActs (env : Env) (action : BitAction) (number mode : Mode) : Bool :=
  (number.expr?.bind env.value?).any fun bit =>
    bit < 8 &&
      match action with
      | .test => mode.hasByte env
      | .set | .reset => mode.isPlace env && !(mode = .reg8 .r && bit = 7)

/-- Reading a port of the video chip acts, if it is into a register. -/
def inputActs (env : Env) : Mode → Mode → Bool
  | .reg8 _, port => port.isVideoPort env
  | _, _ => false

/-- Whether an instruction with these operands does anything in some state. -/
def acts (env : Env) (mnemonic : Mnemonic) (modes : List Mode) : Bool :=
  match mnemonic, modes with
  | .ld, [target, source] => loadActs env target source
  | .push, modes | .pop, modes =>
    match modes with
    | .reg16 _ :: _ => true
    | _ => false
  | .ex, [first, second] => exchangeActs first second
  | .alu op, modes => arithmeticActs env op modes
  | .inc, mode :: _ | .dec, mode :: _ => countActs env mode
  | .shift _, mode :: _ => mode.isPlace env
  | .bit action, [number, mode] => bitActs env action number mode
  | .jp, modes | .jr, modes => modes.getLast?.any (·.isTarget env)
  | .input, [target, port] => inputActs env target port
  | .output, [port, source] => port.isVideoPort env && source.hasByte env
  | .exx, _ | .neg, _ | .cpl, _ | .scf, _ | .ccf, _ | .rotate _, _ | .rld, _ | .rrd, _
  | .djnz, _ | .call, _ | .rst, _ | .ret, _ | .reti, _ | .retn, _
  | .blockCopy _, _ | .blockSearch _, _ | .blockInput _, _ | .blockOutput _, _ => true
  | _, _ => false

end Mnemonic

/-! ## flags of results -/

/-- The flags could be those of a result, which is not both zero and negative. -/
def Flags.Coherent (flags : Flags) : Prop := flags.z = true → flags.s = false

namespace Arithmetic

theorem negative8_of_zero {n : Nat} (h : n % 256 = 0) : negative8 n = false := by
  have low : (n % 2 ^ 8).testBit 7 = n.testBit 7 := Nat.testBit_mod_two_pow n 8 7
  have zero : n % 2 ^ 8 = 0 := h
  rw [negative8, ← low, zero]
  exact Nat.zero_testBit 7

theorem negative16_of_zero {n : Nat} (h : n % 65536 = 0) : negative16 n = false := by
  have low : (n % 2 ^ 16).testBit 15 = n.testBit 15 := Nat.testBit_mod_two_pow n 16 15
  have zero : n % 2 ^ 16 = 0 := h
  rw [negative16, ← low, zero]
  exact Nat.zero_testBit 15

theorem coherent_parityFlags (n : Nat) (carry : Bool) : (parityFlags n carry).Coherent :=
  fun zero => negative8_of_zero (of_decide_eq_true zero)

theorem coherent_add8 (a b : Int) (carry : Bool) : (add8 a b carry).2.Coherent :=
  fun zero => negative8_of_zero (congrArg (· % 256) (of_decide_eq_true zero))

theorem coherent_sub8 (a b : Int) (borrow : Bool) : (sub8 a b borrow).2.Coherent :=
  fun zero => negative8_of_zero (congrArg (· % 256) (of_decide_eq_true zero))

theorem coherent_add16 (a b : Nat) (carry : Bool) : (add16 a b carry).2.Coherent :=
  fun zero => negative16_of_zero (of_decide_eq_true zero)

theorem coherent_sub16 (a b : Nat) (borrow : Bool) : (sub16 a b borrow).2.Coherent :=
  fun zero => congrArg negative16 (of_decide_eq_true zero)

/-- The flags of an operation on the accumulator are those of its result. -/
theorem coherent_accumulator (op : Alu) (a value : Nat) (carry : Bool) :
    (accumulator op a value carry).2.Coherent := by
  cases op with
  | add | adc => exact coherent_add8 _ _ _
  | sub | sbc | cp => exact coherent_sub8 _ _ _
  | and | or | xor => exact coherent_parityFlags _ _

end Arithmetic

namespace Machine

/-! ## doing nothing -/

/-- The function leaves every machine as it is. -/
def Inert (f : Machine → Except UnknownRegister Machine) : Prop :=
  ∀ m, m.WellFormed → f m = .ok m

/-- To decide whether a function is inert, show that it does nothing if a test fails, and name a
machine that it changes if the test holds. -/
theorem inert_iff {f : Machine → Except UnknownRegister Machine} {test : Bool}
    (idle : test = false → Inert f)
    (acts : test = true → ∃ m, m.WellFormed ∧ f m ≠ .ok m) : Inert f ↔ test = false := by
  refine ⟨fun inert => ?_, idle⟩
  cases test with
  | false => rfl
  | true =>
      obtain ⟨m, wf, changed⟩ := acts rfl
      exact absurd (inert m wf) changed

/-- The same for a function that does not fail. -/
theorem inert_ok_iff {f : Machine → Machine} {test : Bool}
    (idle : test = false → ∀ m, m.WellFormed → f m = m)
    (acts : test = true → ∃ m, m.WellFormed ∧ f m ≠ m) :
    Inert (fun m => .ok (f m)) ↔ test = false := by
  refine inert_iff (fun no m wf => congrArg Except.ok (idle no m wf)) fun yes => ?_
  obtain ⟨m, wf, changed⟩ := acts yes
  exact ⟨m, wf, fun same => changed (Except.ok.inj same)⟩

variable {env : Env} {m : Machine}

/-- What changes one machine is not inert. -/
theorem not_inert_of_ne {f : Machine → Machine} (wf : m.WellFormed) (h : f m ≠ m) :
    ¬Inert fun m => .ok (f m) :=
  fun inert => h (Except.ok.inj (inert m wf))

/-- The machine that is first tried: registers other than the stack pointer are zero, and nothing
has been written. -/
def blank : Machine := initial {}

theorem wf_blank : blank.WellFormed := .initial {}

/-! ## operands -/

theorem none_of_isSome {α : Type} {o : Option α} {test : Bool} (h : o.isSome = test)
    (no : test = false) : o = none :=
  Option.isNone_iff_eq_none.mp (by rw [← Option.not_isSome, h, no]; rfl)

theorem exists_of_isSome {α : Type} {o : Option α} {test : Bool} (h : o.isSome = test)
    (yes : test = true) : ∃ a, o = some a :=
  Option.isSome_iff_exists.mp (h.trans yes)

theorem isSome_addressOf? (m : Machine) (mode : Mode) :
    (m.addressOf? env mode).isSome = mode.hasAddress env := by
  cases mode with
  | indexed x offset =>
      simp only [addressOf?, Mode.hasAddress]
      cases env.value? (offset.getD Mode.zeroOffset) <;> simp
  | _ => simp [addressOf?, Mode.hasAddress]

theorem isSome_byteOf? (m : Machine) (mode : Mode) :
    (m.byteOf? env mode).isSome = mode.hasByte env := by
  cases mode <;> simp [byteOf?, Mode.hasByte, Mode.isPlace, isSome_addressOf?, Mode.hasAddress]

theorem isSome_setByte? (m : Machine) (mode : Mode) (value : Nat) :
    (m.setByte? env mode value).isSome = mode.isPlace env := by
  cases mode <;> simp [setByte?, Mode.isPlace, isSome_addressOf?]

theorem isSome_wordOf? (m : Machine) (mode : Mode) :
    (m.wordOf? env mode).isSome = mode.hasWord env := by
  cases mode <;> simp [wordOf?, Mode.hasWord]

/-! ## writing what is there -/

theorem set8_get8 (wf : m.WellFormed) (register : Reg8) :
    m.set8 register (m.registers.get8 register) = m := by
  have regs := wf.registers
  have written : m.registers.set8 register (m.registers.get8 register) = m.registers := by
    cases register with
    | r => simp only [Registers.set8, Registers.get8, Nat.mod_eq_of_lt regs.r]
    | a => simp only [Registers.set8, Registers.get8, Nat.mod_eq_of_lt regs.a]
    | b => simp only [Registers.set8, Registers.get8, Nat.mod_eq_of_lt regs.b]
    | c => simp only [Registers.set8, Registers.get8, Nat.mod_eq_of_lt regs.c]
    | d => simp only [Registers.set8, Registers.get8, Nat.mod_eq_of_lt regs.d]
    | e => simp only [Registers.set8, Registers.get8, Nat.mod_eq_of_lt regs.e]
    | h => simp only [Registers.set8, Registers.get8, Nat.mod_eq_of_lt regs.h]
    | l => simp only [Registers.set8, Registers.get8, Nat.mod_eq_of_lt regs.l]
    | i => simp only [Registers.set8, Registers.get8, Nat.mod_eq_of_lt regs.i]
  rw [set8, written]

/-- The machine with a pair written, if it can be. -/
def withPair (m : Machine) (p : Pair) (value : Nat) : Machine :=
  { m with registers := (m.registers.setPair? p value).getD m.registers }

theorem withPair_pair (wf : m.WellFormed) (p : Pair) : m.withPair p (m.pair p) = m := by
  have regs := wf.registers
  suffices same : (m.registers.setPair? p (m.pair p)).getD m.registers = m.registers by
    rw [withPair, same]
  cases p with
  | af | afShadow => rfl
  | sp => simp [Registers.setPair?, pair, Registers.pair?, Nat.mod_eq_of_lt regs.sp]
  | index x =>
      simp only [Registers.setPair?, pair, Registers.pair?, Option.getD_some]
      cases x with
      | ix => simp only [Registers.setIndex, Registers.index, Nat.mod_eq_of_lt regs.ix]
      | iy => simp only [Registers.setIndex, Registers.index, Nat.mod_eq_of_lt regs.iy]
  | bc =>
      simp only [Registers.setPair?, pair, Registers.pair?, Option.getD_some, Registers.bc,
        Registers.setBc, highByte_wordOf regs.b regs.c, lowByte_wordOf regs.c]
  | de =>
      simp only [Registers.setPair?, pair, Registers.pair?, Option.getD_some, Registers.de,
        Registers.setDe, highByte_wordOf regs.d regs.e, lowByte_wordOf regs.e]
  | hl =>
      simp only [Registers.setPair?, pair, Registers.pair?, Option.getD_some, Registers.hl,
        Registers.setHl, highByte_wordOf regs.h regs.l, lowByte_wordOf regs.l]

/-! ## telling machines apart -/

/-- A byte that is written to a register is odd if the register is afterwards. -/
theorem parity_set8 (regs : Registers) (register : Reg8) (value : Nat) :
    (regs.set8 register value).get8 register % 2 = value % 2 := by
  cases register <;> simp only [Registers.set8, Registers.get8] <;> omega

/-- A word that is written to a pair is odd if the pair is afterwards. -/
theorem parity_withPair {p : Pair} (h : p.isWritable = true) (m : Machine) (value : Nat) :
    (m.withPair p value).pair p % 2 = value % 2 := by
  unfold withPair
  cases p with
  | af | afShadow => cases h
  | sp => simp only [Registers.setPair?, pair, Registers.pair?, Option.getD_some]; omega
  | index x =>
      cases x <;> simp only [Registers.setPair?, pair, Registers.pair?, Option.getD_some,
        Registers.setIndex, Registers.index] <;> omega
  | bc | de | hl =>
      simp only [Registers.setPair?, pair, Registers.pair?, Option.getD_some, Registers.setBc,
        Registers.setDe, Registers.setHl, Registers.bc, Registers.de, Registers.hl, wordOf,
        lowByte]
      omega

/-- No byte is negative and zero, so flags that say so are not those of a result. -/
def contrary : Machine := { blank with flags := { z := true, s := true } }

theorem wf_contrary : contrary.WellFormed := wf_blank.setFlags _

theorem ne_contrary {m : Machine} (h : m.flags.Coherent) : m ≠ contrary := by
  rintro rfl
  exact absurd (h rfl) (by decide)

theorem isSome_get?_store (address value : Nat) :
    ((m.store address value).memory.get? address).isSome = true := by
  rw [memory_store, Memory.get?_set, if_pos rfl]
  rfl

/-- Whatever has been written shows that a machine is no more blank. -/
theorem ne_blank {address : Nat} (h : (m.memory.get? address).isSome = true) : m ≠ blank := by
  rintro rfl
  have nothing : blank.memory.get? address = none := Memory.get?_empty address
  rw [nothing] at h
  cases h

theorem addressOf?_store (address value : Nat) (mode : Mode) :
    (m.store address value).addressOf? env mode = m.addressOf? env mode := by
  cases mode <;> rfl

theorem byteAt_store (address value : Nat) :
    (m.store address value).byteAt env address = value % 256 := by
  rw [byteAt, memory_store, Memory.get?_set, if_pos rfl]
  rfl

/-- The byte of a memory operand is the one at its address. -/
theorem byteOf?_eq_map {mode : Mode} (h : mode.isMemory = true) :
    m.byteOf? env mode = (m.addressOf? env mode).map (m.byteAt env) := by
  cases mode with
  | indirect | indexed | absolute => rfl
  | reg8 | reg16 | immediate => cases h

theorem setByte?_eq_map {mode : Mode} (h : mode.isMemory = true) (value : Nat) :
    m.setByte? env mode value = (m.addressOf? env mode).map (m.store · value) := by
  cases mode with
  | indirect | indexed | absolute => rfl
  | reg8 | reg16 | immediate => cases h

/-- A byte that is stored where an operand points is found there. -/
theorem byteOf?_store {mode : Mode} (hm : mode.isMemory = true) {address : Nat}
    (ha : m.addressOf? env mode = some address) (value : Nat) :
    (m.store address value).byteOf? env mode = some (value % 256) := by
  rw [byteOf?_eq_map hm, addressOf?_store, ha, Option.map_some, byteAt_store]

end Machine

end Z80Workbench
