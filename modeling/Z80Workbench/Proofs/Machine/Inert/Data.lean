import Z80Workbench.Proofs.Machine.Inert.Basic

/-!
# Z80Workbench.Proofs.Machine.Inert.Data

Loads, exchanges, arithmetic and operations on bits that leave every machine as it is.  Where one
does not, a register or a byte of memory can be told from what it was, or the flags after it are
those of its result.
-/

namespace Z80Workbench.Machine

open Mnemonic

variable {env : Env} {m : Machine}

/-! ## loads -/

theorem parity_get8_load {register : Reg8} {source : Mode} {value : Nat}
    (h : m.byteOf? env source = some value) :
    (m.load env (.reg8 register) source).registers.get8 register % 2 = value % 2 := by
  unfold load
  split
  case h_1 ht =>
      cases ht
      cases h
      exact parity_set8 _ .a _
  case h_2 ht =>
      cases ht
      cases h
      refine (parity_set8 _ .a _).trans ?_
      show m.registers.r % 128 % 2 = m.registers.r % 2
      omega
  case h_3 ht _ _ =>
      cases ht
      rw [h]
      exact parity_set8 _ _ _
  case h_4 ht | h_5 ht => cases ht
  case h_6 other _ _ _ _ => exact (other register rfl).elim

/-- A byte may differ from the register that it is loaded into. -/
theorem exists_byteOf?_ne {register : Reg8} {source : Mode} (other : source ≠ .reg8 register)
    (h : source.hasByte env = true) :
    ∃ m : Machine, m.WellFormed ∧ ∃ value, m.byteOf? env source = some value ∧
      m.registers.get8 register % 2 ≠ value % 2 := by
  by_cases hm : source.isMemory = true
  case pos =>
      have found : (blank.addressOf? env source).isSome := by
        rw [isSome_addressOf?]
        cases source with
        | indirect | indexed | absolute => exact h
        | reg8 | reg16 | immediate => cases hm
      obtain ⟨address, ha⟩ := Option.isSome_iff_exists.mp found
      refine ⟨blank.store address 1, wf_blank.store _ _, 1, byteOf?_store hm ha 1, ?_⟩
      have zero : blank.registers.get8 register % 2 = 0 := by cases register <;> rfl
      exact fun same => absurd (zero.symm.trans same) (by decide)
  case neg =>
      cases source with
      | reg8 s =>
          refine ⟨blank.set8 s 1, wf_blank.set8 _ _, 1, ?_, ?_⟩
          · cases s <;> rfl
          · cases s <;> cases register <;> first | exact absurd rfl other | decide
      | reg16 => cases h
      | immediate e =>
          obtain ⟨n, hn⟩ := Option.isSome_iff_exists.mp h
          refine ⟨blank.set8 register (n + 1), wf_blank.set8 _ _, lowByte n, ?_, ?_⟩
          · simp only [byteOf?, hn, Option.map_some]
          · have parity := parity_set8 blank.registers register (n + 1)
            simp only [set8, lowByte]
            omega
      | indirect | indexed | absolute => exact absurd rfl hm

theorem inert_load_reg8 (register : Reg8) (source : Mode) :
    Inert (fun m => .ok (m.load env (.reg8 register) source)) ↔
      loadActs env (.reg8 register) source = false := by
  refine inert_ok_iff (fun idle m wf => ?_) fun acts => ?_
  · by_cases same : source = .reg8 register
    case pos =>
        have own : m.load env (.reg8 register) (.reg8 register) =
            m.set8 register (m.registers.get8 register) := by cases register <;> rfl
        rw [same, own, set8_get8 wf]
    case neg =>
        refine load_reg8_of_none (none_of_isSome (m.isSome_byteOf? source) ?_)
        simpa [loadActs, same] using idle
  · simp only [loadActs, Bool.and_eq_true, decide_eq_true_eq] at acts
    obtain ⟨m, wf, value, hv, ne⟩ := exists_byteOf?_ne acts.1 acts.2
    refine ⟨m, wf, fun same => ne ?_⟩
    rw [← parity_get8_load hv, same]

theorem withPair_of_not_isWritable {p : Pair} (h : p.isWritable = false) (value : Nat) :
    m.withPair p value = m := by
  cases p with
  | af | afShadow => rfl
  | bc | de | hl | sp | index => cases h

theorem load_reg16 {p : Pair} {source : Mode} {value : Nat}
    (h : m.wordOf? env source = some value) :
    m.load env (.reg16 p) source = m.withPair p value := by
  simp only [load, h]
  rfl

/-- Writing one pair does not change the value of another. -/
theorem wordOf?_withPair {p : Pair} {source : Mode} (other : source ≠ .reg16 p) (value : Nat) :
    (m.withPair p value).wordOf? env source = m.wordOf? env source := by
  cases source with
  | reg16 q =>
      have apart : q ≠ p := fun same => other (congrArg _ same)
      suffices same : (m.withPair p value).pair q = m.pair q from congrArg some same
      cases p with
      | index x =>
          cases q with
          | index y => cases x <;> cases y <;> first | exact absurd rfl apart | rfl
          | _ => cases x <;> rfl
      | _ => cases q <;> first | exact absurd rfl apart | rfl
  | _ => rfl

theorem inert_load_reg16 (p : Pair) (source : Mode) :
    Inert (fun m => .ok (m.load env (.reg16 p) source)) ↔
      loadActs env (.reg16 p) source = false := by
  refine inert_ok_iff (fun idle m wf => ?_) fun acts => ?_
  · cases hv : m.wordOf? env source with
    | none => exact load_reg16_of_none hv
    | some value =>
        have has : source.hasWord env = true := by rw [← m.isSome_wordOf?, hv]; rfl
        rw [load_reg16 hv]
        cases writable : p.isWritable with
        | false => exact withPair_of_not_isWritable writable value
        | true =>
            have same : source = .reg16 p := by simpa [loadActs, writable, has] using idle
            rw [same] at hv
            rw [← Option.some.inj hv, withPair_pair wf]
  · simp only [loadActs, Bool.and_eq_true, decide_eq_true_eq] at acts
    obtain ⟨⟨writable, other⟩, has⟩ := acts
    obtain ⟨value, hv⟩ := exists_of_isSome (blank.isSome_wordOf? source) has
    -- The pair starts out with another lowest bit than the value it is given.
    refine ⟨blank.withPair p (value + 1),
      wf_blank.setRegisters (wf_blank.registers.setPair?_getD _ _), fun same => ?_⟩
    rw [load_reg16 ((wordOf?_withPair other _).trans hv)] at same
    have after := parity_withPair writable (blank.withPair p (value + 1)) value
    rw [same, parity_withPair writable] at after
    omega

/-- A byte is stored at the address of a memory operand. -/
theorem loadMemory_byte {target source : Mode} {address value : Nat}
    (ha : m.addressOf? env target = some address) (hv : m.byteOf? env source = some value) :
    m.loadMemory env target source = m.store address value := by
  cases source with
  | reg16 p => cases hv
  | _ =>
      simp only [loadMemory, ha]
      rw [hv]

theorem inert_loadMemory (target source : Mode) :
    Inert (fun m => .ok (m.loadMemory env target source)) ↔
      (target.hasAddress env && source.isStorable env) = false := by
  refine inert_ok_iff (fun idle m _ => ?_) fun acts => ?_
  · cases far : target.hasAddress env with
    | false => exact loadMemory_of_noAddress (none_of_isSome (m.isSome_addressOf? target) far)
    | true =>
        rw [far, Bool.true_and] at idle
        have plain : ∀ p, source ≠ .reg16 p := by
          rintro p rfl
          cases idle
        exact loadMemory_of_noByte (none_of_isSome (m.isSome_byteOf? source)
          ((Mode.isStorable_of_plain plain).symm.trans idle)) plain
  · obtain ⟨near, has⟩ := Bool.and_eq_true_iff.mp acts
    obtain ⟨address, ha⟩ := exists_of_isSome (blank.isSome_addressOf? target) near
    refine ⟨blank, wf_blank, ?_⟩
    by_cases wide : ∃ p, source = .reg16 p
    case pos =>
        obtain ⟨p, rfl⟩ := wide
        simp only [loadMemory, ha]
        exact ne_blank (isSome_get?_store (address + 1) _)
    case neg =>
        have plain : ∀ p, source ≠ .reg16 p := fun p hp => wide ⟨p, hp⟩
        obtain ⟨value, hv⟩ := exists_of_isSome (blank.isSome_byteOf? source)
          ((Mode.isStorable_of_plain plain).symm.trans has)
        rw [loadMemory_byte ha hv]
        exact ne_blank (isSome_get?_store address value)

/-- A load does something if and only if it acts. -/
theorem inert_load (target source : Mode) :
    Inert (fun m => .ok (m.load env target source)) ↔ loadActs env target source = false := by
  cases target with
  | reg8 register => exact inert_load_reg8 register source
  | reg16 p => exact inert_load_reg16 p source
  | immediate e => exact iff_of_true (fun _ _ => rfl) rfl
  | indirect | indexed | absolute => exact inert_loadMemory _ source

/-! ## exchanges and the stack -/

/-- Writing a pair leaves memory as it is. -/
theorem memory_setPair {p : Pair} {value : Nat} {n : Machine} (h : m.setPair p value = .ok n) :
    n.memory = m.memory := by
  unfold setPair at h
  split at h
  case isTrue => cases h; rfl
  case isFalse =>
      split at h
      case h_1 => cases h; rfl
      case h_2 => cases h

/-- An exchange with the top of the stack writes there, unless it fails. -/
theorem exchangeTop_ne_blank (p : Pair) : blank.exchangeTop env p ≠ .ok blank := by
  intro same
  unfold exchangeTop at same
  split at same
  case isTrue => cases same
  case isFalse =>
      have kept := memory_setPair same
      have written : (blank.memory.get? (blank.registers.sp + 1)).isSome = true := by
        rw [kept]
        exact isSome_get?_store _ _
      exact ne_blank written rfl

/-- Other operands are not exchanged. -/
theorem exchange_of_other {first second : Mode}
    (notDeHl : first.pair? = some .de → second.pair? = some .hl → False)
    (notHlDe : first.pair? = some .hl → second.pair? = some .de → False)
    (notAf : first.pair? = some .af → second.pair? = some .afShadow → False)
    (notTop : ∀ p, first = .indirect .sp → second = .reg16 p → False) :
    m.exchange env first second = .ok m := by
  unfold exchange
  split
  case h_1 de hl => exact (notDeHl de hl).elim
  case h_2 hl de => exact (notHlDe hl de).elim
  case h_3 af shadow => exact (notAf af shadow).elim
  case h_4 =>
      split
      case h_1 => exact (notTop _ rfl rfl).elim
      case h_2 => rfl

theorem inert_exchange (first second : Mode) :
    Inert (·.exchange env first second) ↔ exchangeActs first second = false := by
  refine inert_iff (fun idle m _ => ?_) fun acts => ?_
  · unfold exchangeActs at idle
    split at idle
    case h_1 | h_2 | h_3 => cases idle
    case h_4 notDeHl notHlDe notAf =>
        split at idle
        case h_1 => cases idle
        case h_2 notTop => exact exchange_of_other notDeHl notHlDe notAf notTop
  · unfold exchangeActs at acts
    split at acts
    case h_1 de hl | h_2 de hl =>
        refine ⟨blank.setHl 1, wf_blank.setHl 1, fun same => ?_⟩
        simp only [exchange, de, hl, Except.ok.injEq] at same
        exact absurd (congrArg (·.registers.l) same) (by decide)
    case h_3 af shadow =>
        refine ⟨blank.setA 1, wf_blank.setA 1, fun same => ?_⟩
        simp only [exchange, af, shadow, Except.ok.injEq] at same
        exact absurd (congrArg (·.registers.a) same) (by decide)
    case h_4 notDeHl notHlDe notAf =>
        split at acts
        case h_1 p =>
            exact ⟨blank, wf_blank, exchangeTop_ne_blank p⟩
        case h_2 => cases acts

/-- A push moves the stack pointer. -/
theorem not_inert_push (p : Pair) : ¬Inert fun m => .ok (m.push (m.pair p)) := by
  refine not_inert_of_ne wf_blank fun same => ?_
  have moved := congrArg (·.registers.sp) same
  rw [sp_push] at moved
  exact absurd moved (by decide)

theorem top_push (value : Nat) :
    (m.push value).top env = wordOf (highByte value) (lowByte value) := by
  have low : highByte value % 256 = highByte value := Nat.mod_eq_of_lt (highByte_lt _)
  have high : lowByte value % 256 = lowByte value := Nat.mod_eq_of_lt (lowByte_lt _)
  have apart : (m.registers.sp + 65534 + 1) % 65536 ≠ (m.registers.sp + 65534) % 65536 := by omega
  simp [top, wordAt, byteAt, memory_push, Memory.get?_set, low, high, apart]

theorem sp_setPair {p : Pair} {value : Nat} {n : Machine} (h : m.setPair p value = .ok n) :
    n.registers.sp = if p = .sp then value % 65536 else m.registers.sp := by
  unfold setPair at h
  cases p with
  | afShadow => cases h
  | index x => cases h; cases x <;> rfl
  | _ => cases h; rfl

/-- A pop moves the stack pointer up, or to the word on top of the stack. -/
theorem not_inert_pop (p : Pair) : ¬Inert fun m => m.drop.setPair p (m.top env) := by
  intro inert
  have same := inert (blank.push 0) (wf_blank.push 0)
  have moved := sp_setPair same
  rw [top_push] at moved
  by_cases own : p = .sp
  case pos => rw [if_pos own] at moved; exact absurd moved (by decide)
  case neg => rw [if_neg own] at moved; exact absurd moved (by decide)

/-! ## arithmetic -/

/-- The flags after an operation on the accumulator. -/
theorem flags_accumulate (op : Alu) {source : Mode} {value : Nat}
    (h : m.byteOf? env source = some value) :
    (m.accumulate env op source).flags =
      (Arithmetic.accumulator op m.registers.a value m.flags.c).2 := by
  rw [accumulate, h]

theorem inert_accumulate (op : Alu) (source : Mode) :
    Inert (fun m => .ok (m.accumulate env op source)) ↔ source.hasByte env = false := by
  refine inert_ok_iff (fun idle m _ => ?_) fun acts => ?_
  · exact accumulate_of_none op (none_of_isSome (m.isSome_byteOf? source) idle)
  · obtain ⟨value, hv⟩ := exists_of_isSome (contrary.isSome_byteOf? source) acts
    refine ⟨contrary, wf_contrary, ne_contrary ?_⟩
    rw [flags_accumulate op hv]
    exact Arithmetic.coherent_accumulator op _ _ _

/-- Arithmetic on a pair, as far as it is defined. -/
theorem accumulatePair_eq (op : Alu) (p : Pair) (source : Mode) :
    m.accumulatePair env op p source =
      match p.isWide, m.wordOf? env source with
      | true, some value =>
        match Arithmetic.pairs? op (m.pair p) value m.flags with
        | some (result, flags) => { m.withPair p result with flags }
        | none => m
      | _, _ => m := by
  cases p <;> rfl

theorem isSome_pairs? (op : Alu) (a value : Nat) (flags : Flags) :
    (Arithmetic.pairs? op a value flags).isSome = op.isWide := by
  cases op <;> rfl

/-- The flags after arithmetic on a pair. -/
theorem flags_accumulatePair {op : Alu} {p : Pair} {source : Mode} {value result : Nat}
    {flags : Flags} (wide : p.isWide = true) (hv : m.wordOf? env source = some value)
    (hr : Arithmetic.pairs? op (m.pair p) value m.flags = some (result, flags)) :
    (m.accumulatePair env op p source).flags = flags := by
  rw [accumulatePair_eq, wide, hv]
  dsimp only
  rw [hr]

/-- An addition leaves its own carry flag. -/
theorem carry_accumulatePair_add {p : Pair} {source : Mode} {value : Nat} (wide : p.isWide = true)
    (zero : m.pair p = 0) (hv : m.wordOf? env source = some value) :
    (m.accumulatePair env .add p source).flags.c = decide (65536 ≤ value) := by
  rw [flags_accumulatePair wide hv rfl, zero]
  simp [Arithmetic.add16]

/-- With the carry flag set, a blank machine still holds words in its pairs. -/
theorem pair_blank_lt (p : Pair) : (blank.setCarry true).pair p < 65536 := by
  cases p with
  | index x => cases x <;> decide
  | _ => decide

/-- An addition to a pair that is zero changes the carry flag: if the other operand is a word, it
clears it, otherwise it sets it. -/
theorem exists_accumulatePair_add {p : Pair} {source : Mode} (wide : p.isWide = true)
    (has : source.hasWord env = true) :
    ∃ m : Machine, m.WellFormed ∧ m.accumulatePair env .add p source ≠ m := by
  have zero : ∀ carry, (blank.setCarry carry).pair p = 0 := fun carry => by
    cases p with
    | hl => cases carry <;> decide
    | index x => cases x <;> rfl
    | _ => cases wide
  obtain ⟨value, hv⟩ := exists_of_isSome ((blank.setCarry true).isSome_wordOf? source) has
  by_cases small : value < 65536
  case pos =>
      refine ⟨blank.setCarry true, wf_blank.setCarry true, fun same => ?_⟩
      have carry := carry_accumulatePair_add wide (zero true) hv
      rw [same, decide_eq_false (Nat.not_le.mpr small)] at carry
      cases carry
  case neg =>
      -- Pairs hold words, so that the operand is no pair and does not depend on the flags.
      have large : (blank.setCarry false).wordOf? env source = some value := by
        cases source with
        | reg16 q => exact absurd (Option.some.inj hv ▸ pair_blank_lt q) small
        | _ => exact hv
      refine ⟨blank.setCarry false, wf_blank.setCarry false, fun same => ?_⟩
      have carry := carry_accumulatePair_add wide (zero false) large
      rw [same, decide_eq_true (Nat.le_of_not_lt small)] at carry
      cases carry

theorem inert_accumulatePair (op : Alu) (p : Pair) (source : Mode) :
    Inert (fun m => .ok (m.accumulatePair env op p source)) ↔
      (p.isWide && op.isWide && source.hasWord env) = false := by
  refine inert_ok_iff (fun idle m _ => ?_) fun acts => ?_
  · rw [accumulatePair_eq]
    split
    case h_1 value wide hv =>
        split
        case h_1 result flags hr =>
            rw [wide, ← isSome_pairs?, hr, ← m.isSome_wordOf?, hv] at idle
            cases idle
        case h_2 => rfl
    case h_2 => rfl
  · simp only [Bool.and_eq_true] at acts
    obtain ⟨⟨wide, words⟩, has⟩ := acts
    obtain ⟨value, hv⟩ := exists_of_isSome (contrary.isSome_wordOf? source) has
    cases op with
    | add => exact exists_accumulatePair_add wide has
    | adc =>
        refine ⟨contrary, wf_contrary, ne_contrary ?_⟩
        rw [flags_accumulatePair wide hv rfl]
        exact Arithmetic.coherent_add16 _ _ _
    | sbc =>
        refine ⟨contrary, wf_contrary, ne_contrary ?_⟩
        rw [flags_accumulatePair wide hv rfl]
        exact Arithmetic.coherent_sub16 _ _ _
    | _ => cases words

theorem inert_arithmetic (op : Alu) (modes : List Mode) :
    Inert (fun m => .ok (m.arithmetic env op modes)) ↔ arithmeticActs env op modes = false := by
  unfold arithmeticActs
  split
  case h_1 p source => exact inert_accumulatePair op p source
  case h_2 first source plain =>
      have same : ∀ m : Machine,
          m.arithmetic env op [first, source] = m.accumulate env op source := by
        intro m
        cases first with
        | reg16 p => exact absurd rfl (plain p)
        | _ => rfl
      simp only [same]
      exact inert_accumulate op source
  case h_3 source =>
      simp only [arithmetic_one]
      exact inert_accumulate op source
  case h_4 pairs two one =>
      refine iff_of_true (fun m _ => congrArg Except.ok ?_) rfl
      unfold arithmetic
      split
      case h_1 => exact (pairs _ _ rfl).elim
      case h_2 => exact (two _ _ rfl).elim
      case h_3 => exact (one _ rfl).elim
      case h_4 => rfl

/-- Counting flips the lowest bit. -/
theorem parity_move (down : Bool) (n : Nat) : Arithmetic.move down n % 2 ≠ n % 2 := by
  cases down <;> simp only [Arithmetic.move] <;> split <;> omega

theorem coherent_count {down : Bool} {mode : Mode} (place : mode.isPlace env = true) :
    (m.count env down mode).flags.Coherent := by
  obtain ⟨value, hv⟩ := exists_of_isSome (m.isSome_byteOf? mode) (Mode.hasByte_of_isPlace place)
  obtain ⟨written, hw⟩ := exists_of_isSome (m.isSome_setByte? mode _) place
  unfold count
  split
  case h_1 | h_2 => cases place
  case h_3 =>
      rw [hv]
      simp only [countByte]
      rw [hw]
      exact fun zero => congrArg Arithmetic.negative8 (of_decide_eq_true zero)

theorem inert_count (down : Bool) (mode : Mode) :
    Inert (fun m => .ok (m.count env down mode)) ↔ countActs env mode = false := by
  cases mode with
  | reg16 p =>
      refine inert_ok_iff (fun idle m _ => withPair_of_not_isWritable idle _) fun writable => ?_
      refine ⟨blank, wf_blank, fun same => ?_⟩
      have after := parity_withPair writable blank (Arithmetic.move down (blank.pair p))
      exact parity_move down (blank.pair p) (after.symm.trans (congrArg (·.pair p % 2) same))
  | immediate e => exact iff_of_true (fun _ _ => rfl) rfl
  | reg8 | indirect | indexed | absolute =>
      refine inert_ok_iff (fun idle m _ => ?_) fun place => ?_
      · exact count_of_none down (none_of_isSome (m.isSome_byteOf? _) idle) nofun
      · exact ⟨contrary, wf_contrary, ne_contrary (coherent_count place)⟩

/-! ## shifts and bits -/

theorem coherent_shift {op : Shift} {mode : Mode} (place : mode.isPlace env = true) :
    (m.shift env op mode).flags.Coherent := by
  obtain ⟨value, hv⟩ := exists_of_isSome (m.isSome_byteOf? mode) (Mode.hasByte_of_isPlace place)
  obtain ⟨written, hw⟩ := exists_of_isSome (m.isSome_setByte? mode _) place
  unfold shift
  split
  case h_1 => cases place
  case h_2 =>
      rw [hv]
      dsimp only
      rw [hw]
      exact Arithmetic.coherent_parityFlags _ _

theorem inert_shift (op : Shift) (mode : Mode) :
    Inert (fun m => .ok (m.shift env op mode)) ↔ mode.isPlace env = false := by
  refine inert_ok_iff (fun idle m _ => ?_) fun place => ?_
  · cases mode with
    | immediate e => rfl
    | _ => exact shift_of_none op (none_of_isSome (m.isSome_byteOf? _) idle)
  · exact ⟨contrary, wf_contrary, ne_contrary (coherent_shift place)⟩

/-- The byte that setting or clearing a bit leaves. -/
def bitResult (action : BitAction) (bit value : Nat) : Nat :=
  match action with
  | .test => value
  | .set => value ||| 1 <<< bit
  | .reset => if value.testBit bit then value - 1 <<< bit else value

/-- Bit 7 does not matter to seven bits. -/
theorem bitResult_mod (action : BitAction) {value : Nat} (h : value < 128) :
    bitResult action 7 value % 128 = value := by
  cases action with
  | test => exact Nat.mod_eq_of_lt h
  | set =>
      have apart := Nat.or_mod_two_pow (a := value) (b := 1 <<< 7) (n := 7)
      refine apart.trans ?_
      rw [Nat.mod_eq_of_lt h]
      exact Nat.or_zero value
  | reset =>
      have clear : value.testBit 7 = false := Nat.testBit_lt_two_pow h
      rw [bitResult, if_neg (by rw [clear]; decide), Nat.mod_eq_of_lt h]

section

variable {action : BitAction} {number mode : Mode} {bit value : Nat}

theorem changeBit_test (hn : number.expr?.bind env.value? = some bit) (small : bit < 8)
    (hv : m.byteOf? env mode = some value) :
    m.changeBit env .test number mode = m.testBit value bit := by
  rw [changeBit, hn, hv]
  exact if_pos small

/-- Setting or clearing a bit writes a byte back. -/
theorem changeBit_write (hn : number.expr?.bind env.value? = some bit) (small : bit < 8)
    (hv : m.byteOf? env mode = some value) (writes : action ≠ .test) :
    m.changeBit env action number mode =
      (m.setByte? env mode (bitResult action bit value)).getD m := by
  rw [changeBit, hn, hv]
  dsimp only
  rw [if_pos small]
  cases action with
  | test => exact absurd rfl writes
  | set | reset => rfl

theorem changeBit_of_large (hn : number.expr?.bind env.value? = some bit) (large : ¬bit < 8) :
    m.changeBit env action number mode = m := by
  rw [changeBit, hn]
  cases m.byteOf? env mode with
  | none => rfl
  | some value => exact if_neg large

/-- A test leaves the flags of zero and parity alike. -/
theorem testBit_ne_contrary (value bit : Nat) : contrary.testBit value bit ≠ contrary := by
  intro same
  have zero : (!value.testBit bit) = true := congrArg (·.flags.z) same
  have parity : (!value.testBit bit) = false := congrArg (·.flags.pv) same
  exact absurd (zero.symm.trans parity) (by decide)

/-- Setting a bit changes a register that is zero, unless it is bit 7 of R. -/
theorem set_bit_ne (register : Reg8) : ∀ bit < 8, ¬(register = .r ∧ bit = 7) →
    (blank.registers.set8 register (bitResult .set bit (blank.registers.get8 register))).get8
      register ≠ blank.registers.get8 register := by
  cases register <;> decide

/-- A machine with all bits of a register set. -/
def filled (register : Reg8) : Machine := blank.set8 register 255

/-- Clearing a bit changes a register that is full, unless it is bit 7 of R. -/
theorem reset_bit_ne (register : Reg8) : ∀ bit < 8, ¬(register = .r ∧ bit = 7) →
    ((filled register).registers.set8 register
      (bitResult .reset bit ((filled register).registers.get8 register))).get8 register ≠
        (filled register).registers.get8 register := by
  cases register <;> decide

/-- A bit that is there can be changed in a register. -/
theorem exists_bitResult_ne (register : Reg8) (small : bit < 8)
    (there : ¬(register = .r ∧ bit = 7)) (writes : action ≠ .test) :
    ∃ m : Machine, m.WellFormed ∧
      m.set8 register (bitResult action bit (m.registers.get8 register)) ≠ m := by
  cases action with
  | test => exact absurd rfl writes
  | set =>
      exact ⟨blank, wf_blank, fun same =>
        set_bit_ne register bit small there (congrArg (·.registers.get8 register) same)⟩
  | reset =>
      exact ⟨filled register, wf_blank.set8 _ _, fun same =>
        reset_bit_ne register bit small there (congrArg (·.registers.get8 register) same)⟩

theorem exists_changeBit_ne (hn : number.expr?.bind env.value? = some bit) (small : bit < 8)
    (place : mode.isPlace env = true) (there : ¬(mode = .reg8 .r ∧ bit = 7))
    (writes : action ≠ .test) :
    ∃ m : Machine, m.WellFormed ∧ m.changeBit env action number mode ≠ m := by
  by_cases hm : mode.isMemory = true
  case pos =>
      rw [Mode.isPlace_of_isMemory hm] at place
      obtain ⟨address, ha⟩ := exists_of_isSome (blank.isSome_addressOf? mode) place
      have hv : blank.byteOf? env mode = some (blank.byteAt env address) := by
        rw [byteOf?_eq_map hm, ha, Option.map_some]
      refine ⟨blank, wf_blank, ?_⟩
      rw [changeBit_write hn small hv writes, setByte?_eq_map hm, ha]
      exact ne_blank (isSome_get?_store address _)
  case neg =>
      cases mode with
      | reg8 register =>
          obtain ⟨m, wf, ne⟩ := exists_bitResult_ne register small
            (fun h => there ⟨congrArg _ h.1, h.2⟩) writes
          refine ⟨m, wf, ?_⟩
          rw [changeBit_write hn small rfl writes]
          exact ne
      | reg16 | immediate => cases place
      | indirect | indexed | absolute => exact absurd rfl hm

/-- Bit 7 of R is not there, so that writing it does nothing. -/
theorem changeBit_r (wf : m.WellFormed) (hn : number.expr?.bind env.value? = some 7)
    (writes : action ≠ .test) : m.changeBit env action number (.reg8 .r) = m := by
  rw [changeBit_write hn (by decide) rfl writes]
  have kept : m.set8 .r (bitResult action 7 m.registers.r) = m.set8 .r m.registers.r := by
    simp only [set8, Registers.set8, bitResult_mod action wf.registers.r,
      Nat.mod_eq_of_lt wf.registers.r]
  exact kept.trans (set8_get8 wf .r)

/-- Without a place, no bit is written. -/
theorem changeBit_of_not_isPlace (place : mode.isPlace env = false) (writes : action ≠ .test) :
    m.changeBit env action number mode = m := by
  have nowhere : ∀ value, m.setByte? env mode value = none := fun value =>
    none_of_isSome (m.isSome_setByte? mode value) place
  unfold changeBit
  split
  case h_1 =>
      split
      · cases action with
        | test => exact absurd rfl writes
        | set | reset => simp only [nowhere, Option.getD_none]
      · rfl
  case h_2 => rfl

/-- Writing a bit does something if there is a place with such a bit. -/
theorem inert_changeBit_write (hn : number.expr?.bind env.value? = some bit) (small : bit < 8)
    (writes : action ≠ .test) :
    Inert (fun m => .ok (m.changeBit env action number mode)) ↔
      (mode.isPlace env && !(mode = .reg8 .r && bit = 7)) = false := by
  refine inert_ok_iff (fun idle m wf => ?_) fun acts => ?_
  · cases place : mode.isPlace env with
    | false => exact changeBit_of_not_isPlace place writes
    | true =>
        obtain ⟨rfl, rfl⟩ : mode = .reg8 .r ∧ bit = 7 := by simpa [place] using idle
        exact changeBit_r wf hn writes
  · obtain ⟨place, there⟩ : mode.isPlace env = true ∧ ¬(mode = .reg8 .r ∧ bit = 7) := by
      simpa [imp_iff_not_or] using acts
    exact exists_changeBit_ne hn small place there writes

theorem inert_changeBit_test (hn : number.expr?.bind env.value? = some bit) (small : bit < 8) :
    Inert (fun m => .ok (m.changeBit env .test number mode)) ↔ mode.hasByte env = false := by
  refine inert_ok_iff (fun idle m _ => ?_) fun has => ?_
  · exact changeBit_of_none .test (none_of_isSome (m.isSome_byteOf? mode) idle)
  · obtain ⟨value, hv⟩ := exists_of_isSome (contrary.isSome_byteOf? mode) has
    refine ⟨contrary, wf_contrary, ?_⟩
    rw [changeBit_test hn small hv]
    exact testBit_ne_contrary value bit

theorem inert_changeBit (action : BitAction) (number mode : Mode) :
    Inert (fun m => .ok (m.changeBit env action number mode)) ↔
      bitActs env action number mode = false := by
  unfold bitActs
  cases hn : number.expr?.bind env.value? with
  | none =>
      exact iff_of_true (fun m _ => congrArg Except.ok (changeBit_of_noNumber action hn)) rfl
  | some bit =>
      rw [Option.any_some]
      by_cases small : bit < 8
      case neg =>
          rw [decide_eq_false small, Bool.false_and]
          exact iff_of_true (fun m _ => congrArg Except.ok (changeBit_of_large hn small)) rfl
      case pos =>
          rw [decide_eq_true small, Bool.true_and]
          cases action with
          | test => exact inert_changeBit_test hn small
          | set | reset => exact inert_changeBit_write hn small nofun

end

end Z80Workbench.Machine
