import Z80Workbench.Proofs.Machine.Block.Steps
import Z80Workbench.Proofs.Machine.Flat
import Z80Workbench.Proofs.Machine.Inert.Data

/-!
# Z80Workbench.Proofs.Machine.Stack

The stack in memory.  A pushed word takes the two cells below the stack pointer, and the words
pushed before it lie above it, around the end of the address space if need be.  Pops find them in
reverse order, so that pairs pushed and popped again are as they were, whatever else has happened to
the registers in between.
-/

namespace Z80Workbench

/-- The pairs that go on the stack: all but the stack pointer and the shadow of accumulator and
flags. -/
def Pair.isStacked : Pair → Bool
  | .sp | .afShadow => false
  | _ => true

/-- The address some bytes below another one, around the start of the address space. -/
def below (address count : Nat) : Nat := word ((address : Int) - count)

/-- An address is one of those right below another one. -/
def IsBelow (top count address : Nat) : Prop :=
  ∃ i < count, address % 65536 = below top (i + 1)

instance (top count address : Nat) : Decidable (IsBelow top count address) :=
  inferInstanceAs (Decidable (∃ i < count, address % 65536 = below top (i + 1)))

/-! ## words in memory -/

namespace Memory

/-- The memory holds words from an address on, each with its low byte first. -/
def Holds (memory : Memory) (address : Nat) : List Nat → Prop
  | [] => True
  | w :: rest => memory.get? address = some (lowByte w) ∧
      memory.get? (address + 1) = some (highByte w) ∧ memory.Holds (address + 2) rest

variable {memory : Memory} {address : Nat} {words : List Nat}

/-- Only the address within the address space matters. -/
theorem get?_congr {other : Nat} (h : address % 65536 = other % 65536) :
    memory.get? address = memory.get? other := by
  rw [get?, get?, h]

theorem holds_congr {other : Nat} (h : address % 65536 = other % 65536) :
    memory.Holds address words ↔ memory.Holds other words := by
  induction words generalizing address other with
  | nil => exact Iff.rfl
  | cons w rest ih =>
      have next : (address + 1) % 65536 = (other + 1) % 65536 := by omega
      have behind : (address + 2) % 65536 = (other + 2) % 65536 := by omega
      rw [Holds, Holds, get?_congr h, get?_congr next, ih behind]

/-- Storing a byte elsewhere leaves the words as they are. -/
theorem Holds.set (h : memory.Holds address words) {other : Nat} (value : Nat)
    (apart : ∀ i < 2 * words.length, (address + i) % 65536 ≠ other % 65536) :
    (memory.set other value).Holds address words := by
  induction words generalizing address with
  | nil => trivial
  | cons w rest ih =>
      rw [List.length_cons] at apart
      obtain ⟨low, high, held⟩ := h
      have first : other % 65536 ≠ address % 65536 := (apart 0 (by omega)).symm
      have second : other % 65536 ≠ (address + 1) % 65536 := (apart 1 (by omega)).symm
      refine ⟨?_, ?_, ih held fun i hi => ?_⟩
      · rw [get?_set, if_neg first, low]
      · rw [get?_set, if_neg second, high]
      · rw [Nat.add_assoc, Nat.add_comm 2 i]
        exact apart (i + 2) (by omega)

end Memory

/-- Writing a pair of the register file leaves the accumulator and the other pairs alone. -/
theorem Registers.pair?_setPair?_of_ne {regs written : Registers} {p q : Pair} {value : Nat}
    (h : regs.setPair? p value = some written) (other : q ≠ p) :
    written.a = regs.a ∧ written.pair? q = regs.pair? q := by
  cases p with
  | af | afShadow => cases h
  | bc | de | hl | sp =>
      cases h
      cases q <;> simp_all [pair?, setBc, setDe, setHl, bc, de, hl, index]
  | index x =>
      cases h
      cases x <;> cases q with
      | index y => cases y <;> simp_all [pair?, setIndex, index]
      | _ => simp [pair?, setIndex, bc, de, hl]

namespace Machine

variable {env : Env} {m n : Machine}

/-! ## one push -/

/-- Moving the stack pointer changes no pair on the stack. -/
theorem pair_of_sp {p : Pair} (hp : p.isStacked = true) {sp : Nat}
    (registers : n.registers = { m.registers with sp }) (flags : n.flags = m.flags) :
    n.pair p = m.pair p := by
  rw [pair, pair, af, af, registers, flags]
  cases p with
  | sp => cases hp
  | _ => rfl

theorem registers_store (address value : Nat) :
    (m.store address value).registers = m.registers := rfl

theorem registers_setSp (value : Nat) :
    (m.setSp value).registers = { m.registers with sp := value % 65536 } := rfl

theorem registers_push (w : Nat) : (m.push w).registers =
    { m.registers with sp := (m.registers.sp + 65534) % 65536 } := by
  rw [push_eq, registers_store, registers_store, registers_setSp]

theorem flags_store (address value : Nat) : (m.store address value).flags = m.flags := rfl

theorem flags_setSp (value : Nat) : (m.setSp value).flags = m.flags := rfl

theorem flags_push (w : Nat) : (m.push w).flags = m.flags := by
  rw [push_eq, flags_store, flags_store, flags_setSp]

/-- What some pushes have made of a machine: the words lie below the stack pointer as it was, the
last one on top, and nothing else has changed but the program counter. -/
structure Stacked (m n : Machine) (words : List Nat) : Prop where
  sp : n.registers.sp = below m.registers.sp (2 * words.length)
  held : n.memory.Holds n.registers.sp words
  outside : ∀ address, ¬IsBelow m.registers.sp (2 * words.length) address →
    n.memory.get? address = m.memory.get? address
  pairs : ∀ p : Pair, p.isStacked = true → n.pair p = m.pair p

namespace Stacked

theorem start (h : m.registers.sp < 65536) : Stacked m m [] where
  sp := (word_natCast h).symm
  held := trivial
  outside := fun _ _ => rfl
  pairs := fun _ _ => rfl

variable {words : List Nat} (h : Stacked m n words)
include h

theorem arriveAt (address : Option Nat) : Stacked m (n.arriveAt address) words where
  sp := (sp_arriveAt address).trans h.sp
  held := by
    rw [sp_arriveAt, memory_arriveAt]
    exact h.held
  outside := by
    rw [memory_arriveAt]
    exact h.outside
  pairs := fun p hp => (pair_arriveAt address p).trans (h.pairs p hp)

/-- A push puts its word in front of the others, as long as the address space has room. -/
theorem push (room : words.length < 32768) (w : Nat) : Stacked m (n.push w) (w :: words) := by
  have sp : (n.push w).registers.sp = (n.registers.sp + 65534) % 65536 := sp_push w
  have moved : (n.registers.sp + 65534) % 65536 =
      below m.registers.sp (2 * (w :: words).length) := by
    rw [h.sp, List.length_cons]
    unfold below word
    omega
  refine ⟨sp.trans moved, ?held, fun address far => ?outside, fun p hp => ?pairs⟩
  case held =>
      have back : ((n.registers.sp + 65534) % 65536 + 2) % 65536 = n.registers.sp % 65536 := by
        omega
      have low : lowByte w % 256 = lowByte w := Nat.mod_eq_of_lt (lowByte_lt w)
      have high : highByte w % 256 = highByte w := Nat.mod_eq_of_lt (highByte_lt w)
      have apart : ¬((n.registers.sp + 65534) % 65536 + 1) % 65536 =
          (n.registers.sp + 65534) % 65536 % 65536 := by omega
      rw [memory_push, sp]
      refine ⟨?_, ?_, ?_⟩
      · rw [Memory.get?_set, if_neg apart, Memory.get?_set, if_pos rfl, low]
      · rw [Memory.get?_set, if_pos rfl, high]
      · rw [Memory.holds_congr back]
        refine (h.held.set _ fun i hi => ?_).set _ fun i hi => ?_
        all_goals omega
  case outside =>
      rw [List.length_cons] at far
      have upper : address % 65536 ≠ below m.registers.sp (2 * words.length + 1) :=
        fun there => far ⟨2 * words.length, by omega, there⟩
      have lower : address % 65536 ≠ below m.registers.sp (2 * words.length + 2) :=
        fun there => far ⟨2 * words.length + 1, by omega, there⟩
      have other := h.outside address fun ⟨i, before, there⟩ => far ⟨i, by omega, there⟩
      rw [memory_push, Memory.get?_set, if_neg, Memory.get?_set, if_neg, other]
      all_goals
        rw [h.sp]
        unfold below word at *
        omega
  case pairs => rw [pair_of_sp hp (registers_push w) (flags_push w), h.pairs p hp]

end Stacked

/-! ## one pop -/

/-- The word on top of the stack is the first of those that memory holds there. -/
theorem top_of_holds {w : Nat} {words : List Nat}
    (h : m.memory.Holds m.registers.sp (w :: words)) (hw : w < 65536) : m.top env = w := by
  obtain ⟨low, high, -⟩ := h
  rw [top, wordAt, byteAt, byteAt, low, high]
  exact wordOf_highByte_lowByte hw

/-- Accumulator and flags take the values that they have in another machine. -/
theorem af_setAf (wf : m.WellFormed) (n : Machine) : (n.setAf m.af).af = m.af := by
  have high : highByte m.af = m.registers.a := highByte_wordOf wf.registers.a m.flags.toByte_lt
  have low : lowByte m.af = m.flags.toByte := lowByte_wordOf m.flags.toByte_lt
  calc (n.setAf m.af).af
      = wordOf (highByte m.af) (Flags.ofByte (lowByte m.af)).toByte := rfl
    _ = m.af := by rw [high, low, Flags.ofByte_toByte, af]

/-- Accumulator and flags can be told from their pair. -/
theorem af_inj (h : n.pair .af = m.pair .af) :
    n.registers.a = m.registers.a ∧ n.flags = m.flags := by
  have same : wordOf n.registers.a n.flags.toByte = wordOf m.registers.a m.flags.toByte := h
  have low := congrArg lowByte same
  rw [lowByte_wordOf n.flags.toByte_lt, lowByte_wordOf m.flags.toByte_lt] at low
  rw [low, wordOf, wordOf] at same
  refine ⟨by omega, ?_⟩
  rw [← Flags.ofByte_toByte n.flags, low, Flags.ofByte_toByte]

/-- A pair takes the value that it has in another machine. -/
theorem pair_setPair {p : Pair} (wf : m.WellFormed) {k : Machine}
    (h : n.setPair p (m.pair p) = .ok k) : k.pair p = m.pair p := by
  have whole := wordOf_highByte_lowByte (wf.pair_lt p)
  have small : m.pair p % 65536 = m.pair p := Nat.mod_eq_of_lt (wf.pair_lt p)
  cases p with
  | af => cases h; exact af_setAf wf n
  | bc | de | hl => cases h; exact whole
  | sp => cases h; exact small
  | index x => cases x <;> (cases h; exact small)
  | afShadow => cases h

/-- Writing a pair leaves the other ones alone. -/
theorem pair_setPair_of_ne {p q : Pair} {value : Nat} {k : Machine}
    (h : n.setPair p value = .ok k) (other : q ≠ p) : k.pair q = n.pair q := by
  unfold setPair at h
  split at h
  case isTrue af =>
      cases h
      cases q with
      | af => exact absurd af.symm other
      | _ => simp only [pair, Registers.pair?, Option.getD_some, setAf, Registers.bc,
          Registers.de, Registers.hl, Registers.index]
  case isFalse =>
      split at h
      case h_1 registers written =>
          cases h
          obtain ⟨a, pair⟩ := Registers.pair?_setPair?_of_ne written other
          rw [Machine.pair, Machine.pair, af, af, a, pair]
      case h_2 => cases h

/-- What some pops have made of a machine: the stack pointer has moved up, the pairs popped are as
in the machine that pushed them, and the other pairs and memory are as they were. -/
structure Unstacked (m n k : Machine) (ps : List Pair) : Prop where
  sp : k.registers.sp = (n.registers.sp + 2 * ps.length) % 65536
  memory : k.memory = n.memory
  popped : ∀ p ∈ ps, k.pair p = m.pair p
  others : ∀ p : Pair, p.isStacked = true → p ∉ ps → k.pair p = n.pair p

/-- A pop takes a pair off the stack. -/
theorem exists_pop {p : Pair} {words : List Nat} (hp : p.isStacked = true) (wf : m.WellFormed)
    (h : n.memory.Holds n.registers.sp (m.pair p :: words)) :
    ∃ k, n.drop.setPair p (n.top env) = .ok k ∧ Unstacked m n k [p] := by
  rw [top_of_holds h (wf.pair_lt p)]
  obtain ⟨k, written⟩ : ∃ k, n.drop.setPair p (m.pair p) = .ok k := by
    cases p with
    | afShadow => cases hp
    | _ => exact ⟨_, rfl⟩
  have own : p ≠ .sp := fun he => by rw [he] at hp; cases hp
  refine ⟨k, written, ?moved, ?memory, ?popped, fun q hq out => ?others⟩
  case moved => rw [sp_setPair written, if_neg own]; rfl
  case memory => rw [memory_setPair written]; rfl
  case popped => simp [pair_setPair wf written]
  case others =>
      have other : q ≠ p := fun he => out (he ▸ List.mem_cons_self)
      rw [pair_setPair_of_ne written other]
      exact pair_of_sp hq (registers_setSp _) rfl

/-- It does not matter at which line the first pop stands. -/
theorem Unstacked.of_arriveAt {k : Machine} {ps : List Pair} {address : Option Nat}
    (h : Unstacked m (n.arriveAt address) k ps) : Unstacked m n k ps where
  sp := by rw [h.sp, sp_arriveAt]
  memory := by rw [h.memory, memory_arriveAt]
  popped := h.popped
  others := fun p hp out => by rw [h.others p hp out, pair_arriveAt]

/-- Pops one after the other. -/
theorem Unstacked.trans {k l : Machine} {ps qs : List Pair} (h : Unstacked m n k ps)
    (h' : Unstacked m k l qs) (hs : ∀ p ∈ ps, p.isStacked = true) :
    Unstacked m n l (ps ++ qs) where
  sp := by
    rw [h'.sp, h.sp, List.length_append]
    omega
  memory := h'.memory.trans h.memory
  popped := by
    intro p hp
    by_cases again : p ∈ qs
    · exact h'.popped p again
    · have first : p ∈ ps := (List.mem_append.mp hp).resolve_right again
      rw [h'.others p (hs p first) again, h.popped p first]
  others := by
    intro p hp out
    rw [List.mem_append, not_or] at out
    rw [h'.others p hp out.2, h.others p hp out.1]

/-! ## lines -/

/-- The text of a line with a mnemonic and a pair. -/
def pairText (mnemonic : Mnemonic) (p : Pair) : String := mnemonic.name ++ " " ++ p.name

/-- How such a text is read. -/
def pairInstruction (mnemonic : Mnemonic) (p : Pair) : Instruction :=
  ⟨.mnemonic mnemonic, none, [⟨p.name, .reg16 p⟩], p.name⟩

theorem instruction?_pairText {mnemonic : Mnemonic} (hm : mnemonic = .push ∨ mnemonic = .pop)
    (p : Pair) :
    (Source.parseLine? 1 (pairText mnemonic p)).bind SourceLine.instruction? =
      some (pairInstruction mnemonic p) := by
  obtain rfl | rfl := hm
  all_goals
    cases p with
    | index x => cases x <;> decide +kernel
    | _ => decide +kernel

/-- A text with a mnemonic performs it once the machine has come there. -/
theorem runText_of_mnemonic {text : String} {i : Instruction} {mnemonic : Mnemonic}
    (h : (Source.parseLine? 1 text).bind SourceLine.instruction? = some i)
    (ho : i.operation = .mnemonic mnemonic) (address : Option Nat) :
    m.runText env text address =
      (m.arriveAt address).perform env mnemonic i.condition (i.operands.map (·.mode)) := by
  obtain ⟨line, hl, hi⟩ := Option.bind_eq_some_iff.mp h
  rw [runText, hl]
  exact runLine_of_mnemonic hi ho m address

theorem runText_push (p : Pair) (address : Option Nat) :
    m.runText env (pairText .push p) address = .ok ((m.arriveAt address).push (m.pair p)) := by
  rw [runText_of_mnemonic (instruction?_pairText (.inl rfl) p) rfl, ← pair_arriveAt address]
  rfl

theorem runText_pop (p : Pair) (address : Option Nat) :
    m.runText env (pairText .pop p) address =
      (m.arriveAt address).drop.setPair p ((m.arriveAt address).top env) := by
  rw [runText_of_mnemonic (instruction?_pairText (.inr rfl) p) rfl]
  rfl

/-- Lines that push or pop pairs, each at its address if it has one. -/
def pairLines (mnemonic : Mnemonic) (lines : List (Pair × Option Nat)) :
    List (String × Option Nat) :=
  lines.map fun line => (pairText mnemonic line.1, line.2)

variable (env) in
/-- Lines of pushes put the pairs on the stack, the last one on top. -/
theorem exists_pushes {words : List Nat} {lines : List (Pair × Option Nat)}
    (h : Stacked m n words) (hs : ∀ line ∈ lines, line.1.isStacked = true)
    (room : words.length + lines.length ≤ 32768) :
    ∃ k, n.runTexts env (pairLines .push lines) = .ok k ∧
      Stacked m k ((lines.map (m.pair ·.1)).reverse ++ words) := by
  induction lines generalizing n words with
  | nil => exact ⟨n, rfl, h⟩
  | cons line rest ih =>
      rw [List.length_cons] at room
      have pushed : Stacked m _ _ :=
        (h.arriveAt line.2).push (by omega) (n.pair line.1)
      obtain ⟨k, ran, stacked⟩ := ih pushed (fun l hl => hs l (List.mem_cons_of_mem _ hl))
        (by rw [List.length_cons]; omega)
      refine ⟨k, ?_, ?_⟩
      · rw [pairLines, List.map_cons, runTexts, List.foldlM_cons, runText_push]
        exact ran
      · rw [List.map_cons, List.reverse_cons, List.append_assoc,
          ← h.pairs _ (hs line List.mem_cons_self)]
        exact stacked

/-- Lines of pops take the pairs off the stack, the one on top first. -/
theorem exists_pops {lines : List (Pair × Option Nat)} (wf : m.WellFormed)
    (hs : ∀ line ∈ lines, line.1.isStacked = true) (small : n.registers.sp < 65536)
    (h : n.memory.Holds n.registers.sp (lines.map (m.pair ·.1))) :
    ∃ k, n.runTexts env (pairLines .pop lines) = .ok k ∧
      Unstacked m n k (lines.map Prod.fst) := by
  induction lines generalizing n with
  | nil =>
      exact ⟨n, rfl, (Nat.mod_eq_of_lt small).symm, rfl, fun p hp => absurd hp List.not_mem_nil,
        fun _ _ _ => rfl⟩
  | cons line rest ih =>
      have here : (n.arriveAt line.2).memory.Holds (n.arriveAt line.2).registers.sp
          (m.pair line.1 :: rest.map (m.pair ·.1)) := by
        rw [memory_arriveAt, sp_arriveAt]
        exact h
      have stacked := hs line List.mem_cons_self
      obtain ⟨k, ran, popped⟩ := exists_pop stacked wf here
      have first : Unstacked m n k [line.1] := popped.of_arriveAt
      have behind : k.memory.Holds k.registers.sp (rest.map (m.pair ·.1)) := by
        rw [first.memory, first.sp, Memory.holds_congr (Nat.mod_mod _ _)]
        exact h.2.2
      obtain ⟨l, all, others⟩ := ih (fun line hl => hs line (List.mem_cons_of_mem _ hl))
        (first.sp ▸ Nat.mod_lt _ (by decide)) behind
      refine ⟨l, ?_, first.trans others (by simpa using stacked)⟩
      rw [pairLines, List.map_cons, runTexts, List.foldlM_cons, runText_pop, ran]
      exact all

variable (env) in
/-- Pops bring back what pushes have put on the stack, whatever has become of the registers. -/
theorem Stacked.exists_unstacked {words : List Nat} (h : Stacked m n words) (wf : m.WellFormed)
    {pops : List (Pair × Option Nat)} (hs : ∀ line ∈ pops, line.1.isStacked = true)
    (hw : words = pops.map (m.pair ·.1)) {changed : Machine}
    (sp : changed.registers.sp = n.registers.sp) (memory : changed.memory = n.memory) :
    ∃ popped, changed.runTexts env (pairLines .pop pops) = .ok popped ∧
      Unstacked m changed popped (pops.map Prod.fst) ∧ popped.registers.sp = m.registers.sp := by
  have held : changed.memory.Holds changed.registers.sp (pops.map (m.pair ·.1)) := by
    rw [memory, sp, ← hw]
    exact h.held
  have small : changed.registers.sp < 65536 := by
    rw [sp, h.sp]
    exact word_lt _
  obtain ⟨popped, ran, unstacked⟩ := exists_pops wf hs small held
  refine ⟨popped, ran, unstacked, ?_⟩
  have top := wf.registers.sp
  rw [unstacked.sp, sp, h.sp, hw, List.length_map, List.length_map]
  unfold below word
  omega

/-- **The stack is last in, first out.**  Lines that push pairs, up to as many as fill the address
space, and lines that pop them in reverse order bring back the stack pointer and the value of each
pair, whatever has become of the registers, the flags and the video chip in between.  No byte that
the program reads has changed but those right below the stack pointer, around the start of the
address space if need be. -/
theorem pops_of_pushes {pushes pops : List (Pair × Option Nat)} (wf : m.WellFormed)
    (hs : ∀ line ∈ pushes, line.1.isStacked = true) (room : pushes.length ≤ 32768)
    (hr : pops.map Prod.fst = (pushes.map Prod.fst).reverse) :
    ∃ pushed, m.runTexts env (pairLines .push pushes) = .ok pushed ∧
      pushed.registers.sp = below m.registers.sp (2 * pushes.length) ∧
      ∀ changed : Machine, changed.registers.sp = pushed.registers.sp →
        changed.memory = pushed.memory →
        ∃ popped, changed.runTexts env (pairLines .pop pops) = .ok popped ∧
          popped.registers.sp = m.registers.sp ∧
          (∀ line ∈ pushes, popped.pair line.1 = m.pair line.1) ∧
          (.af ∈ pushes.map Prod.fst →
            popped.registers.a = m.registers.a ∧ popped.flags = m.flags) ∧
          ∀ address, ¬IsBelow m.registers.sp (2 * pushes.length) address →
            pushed.byteAt env address = m.byteAt env address ∧
            popped.byteAt env address = m.byteAt env address := by
  have start : Stacked m m [] := .start wf.registers.sp
  obtain ⟨pushed, pushing, stacked⟩ := exists_pushes env start hs (by simpa using room)
  rw [List.append_nil] at stacked
  have count : ((pushes.map (m.pair ·.1)).reverse).length = pushes.length := by simp
  have words : (pushes.map (m.pair ·.1)).reverse = pops.map (m.pair ·.1) := by
    have values := congrArg (List.map m.pair) hr
    rw [List.map_reverse, List.map_map, List.map_map] at values
    exact values.symm
  have among : ∀ line ∈ pops, line.1.isStacked = true := by
    intro line hl
    have mem : line.1 ∈ (pushes.map Prod.fst).reverse := hr ▸ List.mem_map_of_mem hl
    obtain ⟨other, ho, same⟩ := List.mem_map.mp (List.mem_reverse.mp mem)
    exact same ▸ hs other ho
  refine ⟨pushed, pushing, ?moved, fun changed sameSp sameMemory => ?_⟩
  case moved => rw [stacked.sp, count]
  obtain ⟨popped, popping, unstacked, back⟩ :=
    stacked.exists_unstacked env wf among words sameSp sameMemory
  have restored : ∀ p ∈ pushes.map Prod.fst, popped.pair p = m.pair p :=
    fun p hp => unstacked.popped p (hr ▸ List.mem_reverse.mpr hp)
  refine ⟨popped, popping, back, fun line hl => restored _ (List.mem_map_of_mem hl),
    fun listed => af_inj (restored _ listed), fun address far => ?_⟩
  have outside : pushed.memory.get? address = m.memory.get? address :=
    stacked.outside address (count ▸ far)
  have kept : pushed.byteAt env address = m.byteAt env address := by
    rw [byteAt, byteAt, outside]
  exact ⟨kept, (byteAt_congr (unstacked.memory.trans sameMemory) address).trans kept⟩

/-- A machine whose stack reaches around the start of the address space. -/
def stacking : Machine :=
  { initial {} with
    registers := { (initial {}).registers.setBc 0x1234 with a := 0x56, sp := 1 }
    flags := { c := true } }

theorem pops_of_pushes_wrapping : ∃ pushed popped : Machine,
    stacking.runTexts bareEnv (pairLines .push [(.bc, some 0x4000), (.af, none)]) = .ok pushed ∧
      pushed.registers.sp = 0xFFFD ∧
      { pushed with registers := { pushed.registers.setBc 0 with a := 0 }, flags := {} }.runTexts
        bareEnv (pairLines .pop [(.af, none), (.bc, some 0x4004)]) = .ok popped ∧
      popped.registers.sp = 1 ∧ popped.registers.a = 0x56 ∧ popped.flags.c = true ∧
      popped.pair .bc = 0x1234 ∧ popped.byteAt bareEnv 0x4000 = 0 := by
  have fresh : (initial {}).WellFormed := .initial {}
  have wf : stacking.WellFormed :=
    ⟨{ fresh.registers.setBc 0x1234 with a := by decide, sp := by decide }, fresh.memory,
      fresh.video⟩
  obtain ⟨pushed, pushing, moved, restore⟩ :=
    @pops_of_pushes bareEnv stacking [(.bc, some 0x4000), (.af, none)]
      [(.af, none), (.bc, some 0x4004)] wf (by decide) (by decide) rfl
  obtain ⟨popped, popping, back, pairs, af, bytes⟩ := restore
    { pushed with registers := { pushed.registers.setBc 0 with a := 0 }, flags := {} } rfl rfl
  have listed := af (by decide)
  refine ⟨pushed, popped, pushing, moved, popping, back, listed.1, ?carry, ?bc, ?byte⟩
  case carry => rw [listed.2]; rfl
  case bc => exact pairs (.bc, some 0x4000) List.mem_cons_self
  case byte => exact (bytes 0x4000 (by decide)).2

end Machine

end Z80Workbench
