import Mathlib.Data.Nat.Digits.Defs
import Mathlib.Tactic.LinearCombination
import Z80Workbench.Proofs.Machine.SameCode
import Z80Workbench.Proofs.Machine.Transfer

/-!
# Z80Workbench.Proofs.Machine.CarryChain

Arithmetic on numbers of many bytes.  Bytes are added or subtracted from the lowest on, and the
carry of each goes into the next.  What one operation does is said by `Exact` for numbers of any
size, so that a chain of operations on bytes, and one operation on words, can be compared with the
sum or difference of the whole numbers and with each other.
-/

namespace Z80Workbench

namespace Arithmetic

/-! ## one operation -/

/-- Whether a number does not fit in two's complement of some bits. -/
def Overflows (bits : Nat) (n : Int) : Prop := n < -2 ^ (bits - 1) ∨ 2 ^ (bits - 1) ≤ n

instance (bits : Nat) (n : Int) : Decidable (Overflows bits n) :=
  inferInstanceAs (Decidable (_ ∨ _))

/-- What a sum (with the sign `1`) or a difference (with the sign `-1`) of numbers of some bits
comes to, carry included. -/
structure Exact (sign : Int) (bits x y : Nat) (carry : Bool) (outcome : Nat × Flags) : Prop where
  lt : outcome.1 < 2 ^ bits
  value : (x : Int) + sign * (y + carry.toNat) =
    outcome.1 + sign * (2 ^ bits * outcome.2.c.toNat)
  s : outcome.2.s = outcome.1.testBit (bits - 1)
  pv : outcome.2.pv = true ↔
    Overflows bits (signed bits x + sign * (signed bits y + carry.toNat))

theorem negative8_eq (n : Nat) : negative8 n = decide (n / 128 % 2 = 1) := by
  rw [negative8, Nat.testBit_eq_decide_div_mod_eq]

theorem negative16_eq (n : Nat) : negative16 n = decide (n / 32768 % 2 = 1) := by
  rw [negative16, Nat.testBit_eq_decide_div_mod_eq]

/-- A number in range, read as a two's complement number. -/
theorem signed_of_lt {bits n : Nat} (h : n < 2 ^ bits) :
    signed bits n = if 2 * n < 2 ^ bits then (n : Int) else n - (2 ^ bits : Nat) := by
  unfold signed
  rw [Int.bmod_def, Nat.one_shiftLeft,
    Int.emod_eq_of_lt (Int.natCast_nonneg n) (by exact_mod_cast h)]
  split <;> split <;> omega

theorem signed_byte {n : Nat} (h : n < 256) :
    signed 8 n = if n / 128 % 2 = 1 then (n : Int) - 256 else n := by
  rw [signed_of_lt (show n < 2 ^ 8 from h)]
  split <;> split <;> omega

theorem signed_word {n : Nat} (h : n < 65536) :
    signed 16 n = if n / 32768 % 2 = 1 then (n : Int) - 65536 else n := by
  rw [signed_of_lt (show n < 2 ^ 16 from h)]
  split <;> split <;> omega

/-- A byte in front of a number in two's complement. -/
theorem signed_add_byte {bits x y : Nat} (positive : 0 < bits) (hx : x < 256) (hy : y < 2 ^ bits) :
    signed (bits + 8) (x + 256 * y : Nat) = x + 256 * signed bits y := by
  obtain ⟨k, rfl⟩ : ∃ k, bits = k + 1 := ⟨bits - 1, by omega⟩
  have longer : (2 : Nat) ^ (k + 1 + 8) = 512 * 2 ^ k := by ring
  have range : (2 : Nat) ^ (k + 1) = 2 * 2 ^ k := by ring
  have fits : x + 256 * y < 2 ^ (k + 1 + 8) := by omega
  rw [signed_of_lt fits, signed_of_lt hy]
  rw [range] at hy
  rw [longer, range]
  split <;> split <;> omega

/-- Whether there is an overflow is told by all but the lowest byte. -/
theorem overflows_add_byte {bits x : Nat} (positive : 0 < bits) (hx : x < 256) (n : Int) :
    Overflows (bits + 8) (x + 256 * n) ↔ Overflows bits n := by
  obtain ⟨k, rfl⟩ : ∃ k, bits = k + 1 := ⟨bits - 1, by omega⟩
  have longer : (2 : Int) ^ (k + 1 + 8 - 1) = 256 * 2 ^ k := by
    rw [show k + 1 + 8 - 1 = k + 8 by omega]
    ring
  unfold Overflows
  rw [longer, Nat.add_sub_cancel]
  omega

section Operations

variable {x y : Nat} (carry : Bool)

/-- Sums of bytes. -/
theorem exact_add8 (hx : x < 256) (hy : y < 256) : Exact 1 8 x y carry (add8 x y carry) where
  lt := byte_lt (x + y + carry.toNat)
  value := by
    have carry_le := carry.toNat_le
    by_cases carries : (255 : Int) < x + y + carry.toNat <;>
      simp only [add8, byte, carries, decide_true, decide_false, Bool.toNat_true,
        Bool.toNat_false] <;>
      omega
  s := rfl
  pv := by
    have carry_le := carry.toNat_le
    rw [signed_byte hx, signed_byte hy]
    simp only [add8, negative8_eq, Overflows, byte, decide_eq_true_eq, decide_eq_decide, ne_eq]
    omega

/-- Differences of bytes. -/
theorem exact_sub8 (hx : x < 256) (hy : y < 256) : Exact (-1) 8 x y carry (sub8 x y carry) where
  lt := byte_lt (x - y - carry.toNat)
  value := by
    have carry_le := carry.toNat_le
    by_cases borrows : (x : Int) - y - carry.toNat < 0 <;>
      simp only [sub8, byte, borrows, decide_true, decide_false, Bool.toNat_true,
        Bool.toNat_false] <;>
      omega
  s := rfl
  pv := by
    have carry_le := carry.toNat_le
    rw [signed_byte hx, signed_byte hy]
    simp only [sub8, negative8_eq, Overflows, byte, decide_eq_true_eq, decide_eq_decide, ne_eq]
    omega

/-- Sums of words. -/
theorem exact_add16 (hx : x < 65536) (hy : y < 65536) :
    Exact 1 16 x y carry (add16 x y carry) where
  lt := Nat.mod_lt _ (by decide)
  value := by
    have carry_le := carry.toNat_le
    by_cases carries : 65536 ≤ x + y + carry.toNat <;>
      simp only [add16, carries, decide_true, decide_false, Bool.toNat_true, Bool.toNat_false] <;>
      omega
  s := (Nat.testBit_mod_two_pow (x + y + carry.toNat) 16 15).symm
  pv := by
    have carry_le := carry.toNat_le
    rw [signed_word hx, signed_word hy]
    simp only [add16, negative16_eq, Overflows, decide_eq_true_eq, decide_eq_decide, ne_eq]
    omega

/-- Differences of words. -/
theorem exact_sub16 (hx : x < 65536) (hy : y < 65536) :
    Exact (-1) 16 x y carry (sub16 x y carry) where
  lt := word_lt (x - y - carry.toNat)
  value := by
    have carry_le := carry.toNat_le
    by_cases borrows : x < y + carry.toNat <;>
      simp only [sub16, word, borrows, decide_true, decide_false, Bool.toNat_true,
        Bool.toNat_false] <;>
      omega
  s := rfl
  pv := by
    have carry_le := carry.toNat_le
    rw [signed_word hx, signed_word hy]
    simp only [sub16, negative16_eq, Overflows, word, decide_eq_true_eq, decide_eq_decide, ne_eq]
    omega

end Operations

/-! ## results that are exact -/

namespace Exact

variable {sign : Int} {bits x y : Nat} {carry : Bool} {outcome other : Nat × Flags}

theorem cast_lt (exactly : Exact sign bits x y carry outcome) : (outcome.1 : Int) < 2 ^ bits := by
  exact_mod_cast exactly.lt

/-- Exact results agree, as do their flags but for the zero flag. -/
theorem unique (hs : sign = 1 ∨ sign = -1) (exactly : Exact sign bits x y carry outcome)
    (also : Exact sign bits x y carry other) :
    outcome.1 = other.1 ∧ outcome.2.c = other.2.c ∧ outcome.2.s = other.2.s ∧
      outcome.2.pv = other.2.pv := by
  have same := exactly.value.symm.trans also.value
  have lt := exactly.cast_lt
  have also_lt := also.cast_lt
  have result : outcome.1 = other.1 ∧ outcome.2.c = other.2.c := by
    generalize (2 : Int) ^ bits = range at same lt also_lt
    generalize outcome.2.c = c at same ⊢
    generalize other.2.c = c' at same ⊢
    -- Both results are below the range, so they cannot differ by it.
    obtain rfl | rfl := hs <;> cases c <;> cases c' <;>
      simp only [Bool.toNat_true, Bool.toNat_false, and_true, and_false, reduceCtorEq]
        at same ⊢ <;>
      omega
  obtain ⟨number, c⟩ := result
  refine ⟨number, c, ?_, ?_⟩
  · rw [exactly.s, also.s, number]
  · rw [Bool.eq_iff_iff, exactly.pv, also.pv]

/-- A sum wraps, and the carry tells whether it did. -/
theorem sum (exactly : Exact 1 bits x y carry outcome) :
    outcome.1 = (x + y + carry.toNat) % 2 ^ bits ∧
      (outcome.2.c = true ↔ 2 ^ bits ≤ x + y + carry.toNat) := by
  have lt := exactly.lt
  have value : x + y + carry.toNat = outcome.1 + 2 ^ bits * outcome.2.c.toNat := by
    zify
    linear_combination exactly.value
  constructor
  · rw [value, Nat.add_mul_mod_self_left, Nat.mod_eq_of_lt lt]
  · rw [value]
    cases outcome.2.c <;>
      simp only [Bool.toNat_true, Bool.toNat_false, Bool.false_eq_true, true_iff, false_iff] <;>
      omega

/-- A difference wraps, and the borrow tells whether it did. -/
theorem difference (exactly : Exact (-1) bits x y carry outcome) :
    (outcome.1 : Int) = (x - y - carry.toNat) % 2 ^ bits ∧
      (outcome.2.c = true ↔ x < y + carry.toNat) := by
  have lt := exactly.cast_lt
  have value : (x : Int) - y - carry.toNat =
      outcome.1 + 2 ^ bits * -(outcome.2.c.toNat : Int) := by
    linear_combination exactly.value
  constructor
  · rw [value, Int.add_mul_emod_self_left, Int.emod_eq_of_lt (Int.natCast_nonneg _) lt]
  · generalize (2 : Int) ^ bits = range at value lt
    generalize outcome.2.c = c at value ⊢
    cases c <;>
      simp only [Bool.toNat_true, Bool.toNat_false, Bool.false_eq_true, true_iff, false_iff]
        at value ⊢ <;>
      omega

/-- A byte operation whose carry goes into the next makes an operation on a longer number. -/
theorem cons {x' y' : Nat} {low high : Nat × Flags} (positive : 0 < bits) (hx : x < 256)
    (hy : y < 256) (hx' : x' < 2 ^ bits) (hy' : y' < 2 ^ bits)
    (first : Exact sign 8 x y carry low) (rest : Exact sign bits x' y' low.2.c high) :
    Exact sign (bits + 8) (x + 256 * x') (y + 256 * y') carry (low.1 + 256 * high.1, high.2) where
  lt := by
    have low_lt : low.1 < 256 := first.lt
    have high_lt := rest.lt
    rw [pow_add]
    omega
  value := by
    push_cast
    rw [pow_add]
    linear_combination first.value + 256 * rest.value
  s := by
    have low_lt : low.1 < 2 ^ 8 := first.lt
    have top : ¬bits + 8 - 1 < 8 := by omega
    rw [rest.s, Nat.add_comm low.1]
    show _ = (2 ^ 8 * high.1 + low.1).testBit (bits + 8 - 1)
    rw [Nat.testBit_two_pow_mul_add _ low_lt, if_neg top]
    congr 1
  pv := by
    have low_lt : low.1 < 256 := first.lt
    rw [rest.pv, signed_add_byte positive hx hx', signed_add_byte positive hy hy',
      ← overflows_add_byte positive low_lt]
    have same : (x : Int) + 256 * signed bits x' +
        sign * (y + 256 * signed bits y' + carry.toNat) =
        low.1 + 256 * (signed bits x' + sign * (signed bits y' + low.2.c.toNat)) := by
      linear_combination first.value
    rw [same]

end Exact

/-! ## chains -/

/-- An operation on the bytes of two numbers, from the lowest on, and the flags it leaves.  The
carry of each byte goes into the next. -/
def chain (op : Int → Int → Bool → Nat × Flags) (flags : Flags) :
    List Nat → List Nat → List Nat × Flags
  | x :: xs, y :: ys =>
    let low := op x y flags.c
    let high := chain op low.2 xs ys
    (low.1 :: high.1, high.2)
  | _, _ => ([], flags)

/-- The number that some bytes make up, lowest first. -/
def number (bytes : List Nat) : Nat := Nat.ofDigits 256 bytes

theorem number_singleton (x : Nat) : number [x] = x := Nat.ofDigits_singleton

/-- Whether there are so many bytes. -/
structure IsBytes (n : Nat) (xs : List Nat) : Prop where
  length : xs.length = n
  lt : ∀ x ∈ xs, x < 256

namespace IsBytes

variable {n x : Nat} {xs : List Nat}

theorem cons (hx : x < 256) (bytes : IsBytes n xs) : IsBytes (n + 1) (x :: xs) where
  length := congrArg (· + 1) bytes.length
  lt := List.forall_mem_cons.mpr ⟨hx, bytes.lt⟩

theorem eq_nil (bytes : IsBytes 0 xs) : xs = [] := List.eq_nil_of_length_eq_zero bytes.length

theorem exists_cons (bytes : IsBytes (n + 1) xs) :
    ∃ x rest, xs = x :: rest ∧ x < 256 ∧ IsBytes n rest := by
  obtain ⟨x, rest, rfl⟩ := List.exists_cons_of_length_eq_add_one bytes.length
  obtain ⟨hx, lt⟩ := List.forall_mem_cons.mp bytes.lt
  exact ⟨x, rest, rfl, hx, ⟨Nat.succ.inj bytes.length, lt⟩⟩

theorem number_lt (bytes : IsBytes n xs) : number xs < 2 ^ (8 * n) := by
  rw [number, pow_mul, ← bytes.length]
  exact Nat.ofDigits_lt_base_pow_length (by decide) bytes.lt

theorem wordBytes (w : Nat) : IsBytes 2 (wordBytes w) where
  length := rfl
  lt := by simp [Z80Workbench.wordBytes, lowByte_lt, highByte_lt]

end IsBytes

section Chain

variable {op : Int → Int → Bool → Nat × Flags} {sign : Int}
  (each : ∀ x < 256, ∀ y < 256, ∀ carry, Exact sign 8 x y carry (op x y carry))
include each

/-- A chain makes as many bytes as there are. -/
theorem isBytes_chain {n : Nat} {xs ys : List Nat} (hx : IsBytes n xs) (hy : IsBytes n ys)
    (flags : Flags) : IsBytes n (chain op flags xs ys).1 := by
  induction n generalizing xs ys flags with
  | zero =>
      rw [hx.eq_nil, hy.eq_nil]
      exact ⟨rfl, List.forall_mem_nil _⟩
  | succ n ih =>
      obtain ⟨x, xs, rfl, x_lt, hx⟩ := hx.exists_cons
      obtain ⟨y, ys, rfl, y_lt, hy⟩ := hy.exists_cons
      exact (ih hx hy _).cons (each x x_lt y y_lt flags.c).lt

/-- A chain of operations on bytes is an operation on numbers with as many bits.  By induction on
the bytes, the highest of which alone makes the flags. -/
theorem exact_chain {n : Nat} (positive : 0 < n) {xs ys : List Nat} (hx : IsBytes n xs)
    (hy : IsBytes n ys) (flags : Flags) :
    Exact sign (8 * n) (number xs) (number ys) flags.c
      (number (chain op flags xs ys).1, (chain op flags xs ys).2) := by
  induction n, positive using Nat.le_induction generalizing xs ys flags with
  | base =>
      obtain ⟨x, xs, rfl, x_lt, hx⟩ := hx.exists_cons
      obtain ⟨y, ys, rfl, y_lt, hy⟩ := hy.exists_cons
      rw [hx.eq_nil, hy.eq_nil, number_singleton, number_singleton]
      exact each x x_lt y y_lt flags.c
  | succ n positive ih =>
      obtain ⟨x, xs, rfl, x_lt, hx⟩ := hx.exists_cons
      obtain ⟨y, ys, rfl, y_lt, hy⟩ := hy.exists_cons
      have bits : 0 < 8 * n := by omega
      exact .cons bits x_lt y_lt hx.number_lt hy.number_lt (each x x_lt y y_lt flags.c)
        (ih hx hy _)

end Chain

/-- Bytes and flags are those of a sum of numbers of some bytes. -/
structure IsSum (n x y : Nat) (carry : Bool) (outcome : List Nat × Flags) : Prop where
  bytes : IsBytes n outcome.1
  value : number outcome.1 = (x + y + carry.toNat) % 256 ^ n
  c : outcome.2.c = true ↔ 256 ^ n ≤ x + y + carry.toNat
  s : outcome.2.s = (number outcome.1).testBit (8 * n - 1)
  pv : outcome.2.pv = true ↔
    Overflows (8 * n) (signed (8 * n) x + signed (8 * n) y + carry.toNat)

/-- Bytes and flags are those of a difference of numbers of some bytes. -/
structure IsDifference (n x y : Nat) (borrow : Bool) (outcome : List Nat × Flags) : Prop where
  bytes : IsBytes n outcome.1
  value : (number outcome.1 : Int) = (x - y - borrow.toNat) % 256 ^ n
  c : outcome.2.c = true ↔ x < y + borrow.toNat
  s : outcome.2.s = (number outcome.1).testBit (8 * n - 1)
  pv : outcome.2.pv = true ↔
    Overflows (8 * n) (signed (8 * n) x - signed (8 * n) y - borrow.toNat)

theorem exact_add8_bytes :
    ∀ x < 256, ∀ y < 256, ∀ carry, Exact 1 8 x y carry (add8 x y carry) :=
  fun _ hx _ hy carry => exact_add8 carry hx hy

theorem exact_sub8_bytes :
    ∀ x < 256, ∀ y < 256, ∀ carry, Exact (-1) 8 x y carry (sub8 x y carry) :=
  fun _ hx _ hy carry => exact_sub8 carry hx hy

section Numbers

variable {n : Nat} (positive : 0 < n) {xs ys : List Nat} (hx : IsBytes n xs) (hy : IsBytes n ys)
  (flags : Flags)
include positive hx hy

theorem isSum_chain : IsSum n (number xs) (number ys) flags.c (chain add8 flags xs ys) := by
  have exactly := exact_chain exact_add8_bytes positive hx hy flags
  have range : (256 : Nat) ^ n = 2 ^ (8 * n) := (pow_mul 2 8 n).symm
  refine ⟨isBytes_chain exact_add8_bytes hx hy flags, ?value, ?c, exactly.s, ?pv⟩
  case value => rw [range, ← exactly.sum.1]
  case c => rw [range, ← exactly.sum.2]
  case pv => rw [exactly.pv, one_mul, add_assoc]

theorem isDifference_chain :
    IsDifference n (number xs) (number ys) flags.c (chain sub8 flags xs ys) := by
  have exactly := exact_chain exact_sub8_bytes positive hx hy flags
  have range : (256 : Int) ^ n = 2 ^ (8 * n) := by rw [pow_mul]; norm_num
  refine ⟨isBytes_chain exact_sub8_bytes hx hy flags, ?value, exactly.difference.2, exactly.s, ?pv⟩
  case value => rw [range, ← exactly.difference.1]
  case pv =>
      rw [exactly.pv, neg_one_mul, ← sub_eq_add_neg, sub_add_eq_sub_sub]

end Numbers

/-- A word as its two bytes. -/
theorem number_wordBytes {w : Nat} (h : w < 65536) : number (wordBytes w) = w := by
  show lowByte w + 256 * (highByte w + 256 * 0) = w
  unfold lowByte highByte
  omega

/-- What an operation on words comes to, told by a chain of two bytes. -/
def chainWords (op : Int → Int → Bool → Nat × Flags) (flags : Flags) (x y : Nat) : Nat × Flags :=
  let outcome := chain op flags (wordBytes x) (wordBytes y)
  let result := number outcome.1
  (result, { outcome.2 with z := result = 0 })

/-- Two bytes in a chain do the same as one operation on words. -/
theorem eq_chainWords {op : Int → Int → Bool → Nat × Flags} {sign : Int}
    (each : ∀ x < 256, ∀ y < 256, ∀ carry, Exact sign 8 x y carry (op x y carry))
    (hs : sign = 1 ∨ sign = -1) {x y : Nat} (hx : x < 65536) (hy : y < 65536) {flags : Flags}
    {outcome : Nat × Flags} (wide : Exact sign 16 x y flags.c outcome)
    (z : outcome.2.z = decide (outcome.1 = 0)) : outcome = chainWords op flags x y := by
  have chained := exact_chain each Nat.two_pos (.wordBytes x) (.wordBytes y) flags
  rw [number_wordBytes hx, number_wordBytes hy] at chained
  obtain ⟨result, c, s, pv⟩ := wide.unique hs chained
  calc outcome
      = (outcome.1, ⟨outcome.2.z, outcome.2.s, outcome.2.c, outcome.2.pv⟩) := rfl
    _ = chainWords op flags x y := by
      rw [z, result, c, s, pv]
      rfl

end Arithmetic

/-! ## arithmetic on HL -/

namespace Machine

open Arithmetic

variable {env : Env} {m : Machine}

/-- The machine once a chain of two bytes has worked on HL. -/
def chainHl (op : Int → Int → Bool → Nat × Flags) (m : Machine) (p : Pair) : Machine :=
  let outcome := chainWords op m.flags m.registers.hl (m.pair p)
  { m with registers := m.registers.setHl outcome.1, flags := outcome.2 }

theorem adc_hl (wf : m.WellFormed) (p : Pair) :
    m.accumulatePair env .adc .hl (.reg16 p) = m.chainHl add8 p := by
  have hl := wf.registers.hl_lt
  have pair := wf.pair_lt p
  have wide := exact_add16 m.flags.c hl pair
  unfold chainHl
  rw [← eq_chainWords exact_add8_bytes (.inl rfl) hl pair wide rfl]
  rfl

theorem sbc_hl (wf : m.WellFormed) (p : Pair) :
    m.accumulatePair env .sbc .hl (.reg16 p) = m.chainHl sub8 p := by
  have hl := wf.registers.hl_lt
  have pair := wf.pair_lt p
  have wide := exact_sub16 m.flags.c hl pair
  unfold chainHl
  rw [← eq_chainWords exact_sub8_bytes (.inr rfl) hl pair wide rfl]
  rfl

/-- A line with arithmetic on HL. -/
theorem runLine_hl {line : SourceLine} {i : Instruction} {op : Alu} {p : Pair}
    (hl : line.instruction? = some i) (ho : i.operation = .mnemonic (.alu op))
    (hm : i.operands.map (·.mode) = [.reg16 .hl, .reg16 p]) (address : Option Nat) :
    m.runLine env line address =
      .ok ((m.arriveAt address).accumulatePair env op .hl (.reg16 p)) := by
  rw [runLine_of_mnemonic hl ho, hm]
  rfl

/-- **Carry chains.**  Adding or subtracting numbers of many bytes, byte by byte from the lowest on
with each carry going into the next, gives the bytes of the sum or difference of the whole numbers;
the last carry, sign and overflow are those of the whole operation.  `ADC` and `SBC` on HL come to
the same as two bytes in such a chain, and their zero flag is that of the whole word. -/
theorem carryChain_arithmetic :
    (∀ (flags : Flags) (n : Nat) (xs ys : List Nat), 0 < n → IsBytes n xs → IsBytes n ys →
      IsSum n (number xs) (number ys) flags.c (chain add8 flags xs ys) ∧
      IsDifference n (number xs) (number ys) flags.c (chain sub8 flags xs ys)) ∧
    ∀ (env : Env) (m : Machine) (line : SourceLine) (i : Instruction) (p : Pair)
      (address : Option Nat), m.WellFormed → line.instruction? = some i →
      i.operands.map (·.mode) = [.reg16 .hl, .reg16 p] →
      (i.operation = .mnemonic (.alu .adc) →
        m.runLine env line address = .ok ((m.arriveAt address).chainHl add8 p)) ∧
      (i.operation = .mnemonic (.alu .sbc) →
        m.runLine env line address = .ok ((m.arriveAt address).chainHl sub8 p)) := by
  refine ⟨fun flags n xs ys positive hx hy => ⟨?sum, ?difference⟩,
    fun env m line i p address wf hl hm => ⟨fun ho => ?adc, fun ho => ?sbc⟩⟩
  case sum => exact isSum_chain positive hx hy flags
  case difference => exact isDifference_chain positive hx hy flags
  case adc => rw [runLine_hl hl ho hm, adc_hl (wf.arriveAt address)]
  case sbc => rw [runLine_hl hl ho hm, sbc_hl (wf.arriveAt address)]

/-- A machine with the highest positive word in HL. -/
def brimming : Machine :=
  { initial {} with registers := ((initial {}).registers.setHl 0x7FFF).setDe 1 }

theorem carryChain_arithmetic_brimming :
    (chain add8 {} [0xFF, 0x7F] [0x01, 0x00]).2.pv = true ∧
      ∃ n : Machine, brimming.runLine bareEnv (plainLine (.alu .adc) "HL,DE") none = .ok n ∧
        n.registers.hl = 0x8000 ∧ n.flags.pv = true := by
  obtain ⟨chains, words⟩ := carryChain_arithmetic
  have wf : brimming.WellFormed := by
    have fresh : (initial {}).WellFormed := .initial {}
    exact fresh.setRegisters ((fresh.registers.setHl 0x7FFF).setDe 1)
  have line : (plainLine (.alu .adc) "HL,DE").instruction? =
      some (.ofArgs (.mnemonic (.alu .adc)) "HL,DE".toList) := rfl
  have modes : (Instruction.ofArgs (.mnemonic (.alu .adc)) "HL,DE".toList).operands.map (·.mode) =
      [.reg16 .hl, .reg16 .de] := by decide +kernel
  refine ⟨?overflow, _, (words bareEnv brimming _ _ _ none wf line modes).1 rfl, ?sum, ?sign⟩
  case overflow =>
    have xs : IsBytes 2 [0xFF, 0x7F] := ⟨rfl, by decide⟩
    have ys : IsBytes 2 [0x01, 0x00] := ⟨rfl, by decide⟩
    exact (chains {} 2 _ _ (by decide) xs ys).1.pv.mpr (by decide)
  case sum => decide +kernel
  case sign => decide +kernel

end Machine

end Z80Workbench
