import Z80Workbench.Proofs.Code.RoundTrip

/-!
# Z80Workbench.Proofs.Code.Boundaries

Where one instruction ends and the next begins.  Code takes one to four bytes, and the code of no
instruction goes on from that of another: whatever stands behind it, a reader takes off as many
bytes.  So code can be cut into instructions in one way only, whatever symbols, addresses and
fallbacks its instructions were encoded with.
-/

namespace Z80Workbench

/-! ## widths -/

namespace Field

theorem totalWidth_append (front back : List Field) :
    totalWidth (front ++ back) = totalWidth front + totalWidth back := by
  induction front with
  | nil => simp [totalWidth]
  | cons field rest ih => simp [totalWidth, ih, Nat.add_assoc]

theorem totalWidth_opcodes (code : List Nat) : totalWidth (code.map opcode) = code.length := by
  induction code with
  | nil => rfl
  | cons n rest ih => simp [totalWidth, width, ih, Nat.add_comm]

end Field

/-- A place adds at most a prefix and an offset to an opcode. -/
theorem Place.totalWidth_le {mode : Mode} {place : Place} (h : ofMode? mode = some place) :
    Field.totalWidth place.opening ≤ 1 ∧ Field.totalWidth place.offset ≤ 1 := by
  unfold ofMode? at h
  split at h
  case h_1 =>
      obtain ⟨bits, _, rfl⟩ := Option.map_eq_some_iff.mp h
      simp [Field.totalWidth]
  case h_2 | h_3 =>
      cases h
      simp [Field.totalWidth, Field.width]
  case h_4 => contradiction

/-- A register adds nothing. -/
theorem Place.totalWidth_eq_zero {mode : Mode} {place : Place} (h : ofMode? mode = some place)
    (hb : place.bits ≠ 6) :
    Field.totalWidth place.opening = 0 ∧ Field.totalWidth place.offset = 0 := by
  obtain ⟨register, bits, _, _, rfl⟩ | memory := register_or_memory h
  · simp [Field.totalWidth]
  · contradiction

namespace Form

/-- If the form is supported, its code takes one to four bytes. -/
def Short (form : Form) : Prop :=
  ∀ fields, form.code? = some fields → 1 ≤ Field.totalWidth fields ∧ Field.totalWidth fields ≤ 4

@[simp] theorem short_code {fields : List Field} :
    (code fields).Short ↔ 1 ≤ Field.totalWidth fields ∧ Field.totalWidth fields ≤ 4 := by
  simp [Short, code]

@[simp] theorem short_refused {reads : List Field} : (refused reads).Short := by
  simp [Short, refused]

@[simp] theorem short_unsupported : unsupported.Short := short_refused

@[simp] theorem short_fixed {bytes : List Nat} :
    (fixed bytes).Short ↔ 1 ≤ bytes.length ∧ bytes.length ≤ 4 := by
  simp [fixed, Field.totalWidth_opcodes]

@[simp] theorem short_withByte {bytes : List Nat} {e : Expr} :
    (withByte bytes e).Short ↔ bytes.length ≤ 3 := by
  rw [withByte, short_code, Field.totalWidth_append, Field.totalWidth_opcodes]
  simp only [Field.totalWidth, Field.width]
  omega

@[simp] theorem short_withWord {bytes : List Nat} {e : Expr} :
    (withWord bytes e).Short ↔ bytes.length ≤ 2 := by
  rw [withWord, short_code, Field.totalWidth_append, Field.totalWidth_opcodes]
  simp only [Field.totalWidth, Field.width]
  omega

theorem short_place {mode : Mode} {place : Place} {opcode : Nat}
    (h : Place.ofMode? mode = some place) : (place.form opcode).Short := by
  have := Place.totalWidth_le h
  simp [Place.form, Field.totalWidth_append, Field.totalWidth, Field.width]
  omega

theorem short_bitGroup {mode : Mode} {place : Place} {last : Field}
    (h : Place.ofMode? mode = some place) (hl : last.width = 1) :
    1 ≤ Field.totalWidth (place.bitGroup last) ∧ Field.totalWidth (place.bitGroup last) ≤ 4 := by
  have := Place.totalWidth_le h
  simp [Place.bitGroup, Field.totalWidth_append, Field.totalWidth, Field.width]
  simp only [Field.width] at hl
  omega

/- One group of instructions after the other.  Loads between two places are the only forms that
are short for a reason of their own: no two places stand in memory. -/

theorem short_loadPair {p : Pair} {source : Mode} : (loadPair p source).Short := by
  unfold loadPair
  split
  case h_6 | h_7 => split <;> simp
  all_goals simp

theorem short_storePair {address : Expr} {p : Pair} : (storePair address p).Short := by
  unfold storePair
  split
  case h_3 => split <;> simp
  all_goals simp

theorem short_loadOther {offsets : List Field} {target source : Mode} :
    (loadOther offsets target source).Short := by
  unfold loadOther
  split
  case h_7 => exact short_storePair
  case h_8 =>
      split
      · exact short_loadPair
      · simp
  all_goals simp

theorem short_load {target source : Mode} : (load target source).Short := by
  unfold load
  split
  case h_1 | h_2 | h_3 | h_4 => simp
  cases hd : Place.ofMode? target with
  | none =>
      cases Place.ofMode? source with
      | none => exact short_loadOther
      | some s => exact short_loadOther
  | some d =>
      have target := Place.totalWidth_le hd
      cases hs : Place.ofMode? source with
      | none =>
          cases source with
          | immediate e =>
              simp [Field.totalWidth_append, Field.totalWidth, Field.width]
              omega
          | _ => exact short_loadOther
      | some s =>
          have source := Place.totalWidth_le hs
          simp only
          split
          · simp
          case isFalse one =>
              have register : Field.totalWidth d.opening = 0 ∧ Field.totalWidth d.offset = 0 ∨
                  Field.totalWidth s.opening = 0 ∧ Field.totalWidth s.offset = 0 := by
                by_cases hb : d.bits = 6
                · exact .inr (Place.totalWidth_eq_zero hs fun both => one ⟨hb, both⟩)
                · exact .inl (Place.totalWidth_eq_zero hd hb)
              simp [Field.totalWidth_append, Field.totalWidth, Field.width]
              omega

theorem short_stack {base : Nat} {mode : Mode} : (stack base mode).Short := by
  unfold stack
  split
  case h_2 => split <;> simp
  all_goals simp

theorem short_exchange {first second : Mode} : (exchange first second).Short := by
  unfold exchange
  split
  case h_4 => split <;> simp
  all_goals simp

theorem short_accumulator {op : Alu} {source : Mode} : (accumulator op source).Short := by
  unfold accumulator
  split
  case h_1 hp => exact short_place hp
  all_goals simp

theorem short_pairs {op : Alu} {p q : Pair} : (pairs op p q).Short := by
  unfold pairs
  split
  case h_1 => split <;> simp
  case h_2 =>
      dsimp only
      generalize (if q = _ then some 2 else if q = Pair.hl then none else q.code?) = code?
      cases op <;> cases code? <;> simp
  case h_3 => simp

theorem short_arithmetic {op : Alu} {modes : List Mode} : (arithmetic op modes).Short := by
  unfold arithmetic
  split
  case h_1 | h_3 => exact short_accumulator
  case h_2 => exact short_pairs
  case h_4 => simp

theorem short_count {byteOpcode pairOpcode : Nat} {mode : Mode} :
    (count byteOpcode pairOpcode mode).Short := by
  unfold count
  split
  case h_1 hp => exact short_place hp
  case h_3 => split <;> simp
  all_goals simp

theorem short_shift {op : Shift} {mode : Mode} : (shift op mode).Short := by
  unfold shift
  split
  case h_1 hp => exact short_code.mpr (short_bitGroup hp rfl)
  case h_2 => simp

theorem short_bit {action : BitAction} {number mode : Mode} : (bit action number mode).Short := by
  unfold bit
  split
  case h_1 =>
      split
      case h_1 hp =>
          rintro _ ⟨⟩
          exact short_bitGroup hp rfl
      case h_2 => simp
  case h_2 => simp

theorem short_jump {condition : Option Condition} {target : Mode} :
    (jump condition target).Short := by
  unfold jump
  split <;> simp

theorem short_jumpRelative {condition : Option Condition} {target : Mode} :
    (jumpRelative condition target).Short := by
  unfold jumpRelative
  split
  case h_2 => split <;> simp [Field.totalWidth, Field.width]
  all_goals simp [Field.totalWidth, Field.width]

theorem short_call {condition : Option Condition} {target : Mode} :
    (call condition target).Short := by
  unfold call
  split <;> simp

theorem short_ret {condition : Option Condition} : (ret condition).Short := by
  unfold ret
  split <;> simp

theorem short_input {target port : Mode} : (input target port).Short := by
  unfold input
  split
  case h_2 => split <;> simp
  all_goals simp

theorem short_output {port source : Mode} : (output port source).Short := by
  unfold output
  split
  case h_2 => split <;> simp
  all_goals simp

theorem short_implied {m : Mnemonic} {bytes : List Nat} (h : implied? m = some bytes) :
    (fixed bytes).Short := by
  unfold implied? at h
  split at h
  case h_23 => cases h
  all_goals
    cases h
    simp

/-- The code of an instruction takes one to four bytes, whatever its operands are. -/
theorem short_ofParts {m : Mnemonic} {condition : Option Condition} {modes : List Mode} :
    (ofParts m condition modes).Short := by
  unfold ofParts
  split
  case h_1 hi => exact short_implied hi
  case h_2 => exact short_load
  case h_3 | h_4 => exact short_stack
  case h_5 => exact short_exchange
  case h_6 => exact short_arithmetic
  case h_7 | h_8 => exact short_count
  case h_9 => exact short_shift
  case h_10 => exact short_bit
  case h_11 => exact short_jump
  case h_12 => exact short_jumpRelative
  case h_14 => exact short_call
  case h_15 => exact short_ret
  case h_18 => exact short_input
  case h_19 => exact short_output
  case h_20 => simp
  -- what is left are single fields behind at most one opcode
  all_goals simp [Field.totalWidth, Field.width]

end Form

/-! ## code of an instruction -/

namespace Instruction

variable {ctx ctx' : Context} {i i' : Instruction} {bytes bytes' : List Nat}

/-- Code consists of one to four bytes. -/
theorem length_encode (h : i.encode ctx = .ok bytes) : 1 ≤ bytes.length ∧ bytes.length ≤ 4 := by
  obtain ⟨_, fields, _, hc, hb⟩ := encode_eq_ok.mp h
  rw [Field.length_fillAll hb]
  unfold form at hc
  split at hc
  · exact Form.short_ofParts fields hc
  · exact Form.short_unsupported fields hc

/-- Whatever follows code, a reader takes exactly the code off. -/
theorem exists_decode (h : i.encode ctx = .ok bytes) :
    ∃ c, ∀ rest, Reader.decode 0 (bytes ++ rest) = some (c, rest) := by
  obtain ⟨_, _, d, hd, _⟩ :=
    @decode_encode ctx ⟨{ symbols := ∅ }, ∅⟩ 0 i bytes h
  exact ⟨d, hd⟩

/-- No code goes on from other code. -/
theorem eq_of_encode_prefix (h : i.encode ctx = .ok bytes) (h' : i'.encode ctx' = .ok bytes')
    (hp : bytes <+: bytes') : bytes = bytes' := by
  obtain ⟨rest, rfl⟩ := hp
  obtain ⟨c, hc⟩ := exists_decode h
  obtain ⟨c', hc'⟩ := exists_decode h'
  have whole := hc' []
  rw [List.append_nil, hc rest] at whole
  simp only [Option.some.injEq, Prod.mk.injEq] at whole
  rw [whole.2, List.append_nil]

/-- Code consists of bytes, whether or not the operands have been read from a text. -/
theorem lt_of_mem_code (h : i.encode ctx = .ok bytes) : ∀ b ∈ bytes, b < 256 := by
  obtain ⟨_, fields, _, hc, hb⟩ := encode_eq_ok.mp h
  have holds : i.form.Holds fun _ => True := by
    unfold form
    split
    · exact Form.holds_ofParts (fun _ _ _ _ => trivial) trivial
    · simp
  exact Field.lt_of_mem_fillAll (fun field hf => holds field (by simp [hc, hf])) hb

end Instruction

/-! ## rows of code -/

/-- The bytes are the code of an instruction, with some symbols and at some address. -/
def IsCode (bytes : List Nat) : Prop :=
  ∃ (ctx : Context) (i : Instruction), i.encode ctx = .ok bytes

namespace IsCode

variable {bytes bytes' : List Nat} {codes codes' : List (List Nat)}

theorem eq_of_prefix (h : IsCode bytes) (h' : IsCode bytes') (hp : bytes <+: bytes') :
    bytes = bytes' := by
  obtain ⟨_, _, h⟩ := h
  obtain ⟨_, _, h'⟩ := h'
  exact Instruction.eq_of_encode_prefix h h' hp

theorem ne_nil (h : IsCode bytes) : bytes ≠ [] := by
  obtain ⟨_, _, h⟩ := h
  have := (Instruction.length_encode h).1
  rintro rfl
  contradiction

/-- Rows of code with the same bytes are cut at the same places. -/
theorem eq_of_flatten (hc : ∀ code ∈ codes, IsCode code) (hc' : ∀ code ∈ codes', IsCode code)
    (h : codes.flatten = codes'.flatten) : codes = codes' := by
  induction codes generalizing codes' with
  | nil =>
      cases codes' with
      | nil => rfl
      | cons code rest =>
          have empty : code = [] := by simp_all
          exact absurd empty (hc' code List.mem_cons_self).ne_nil
  | cons code rest ih =>
      cases codes' with
      | nil =>
          have empty : code = [] := by simp_all
          exact absurd empty (hc code List.mem_cons_self).ne_nil
      | cons code' rest' =>
          rw [List.flatten_cons, List.flatten_cons] at h
          have first := hc code List.mem_cons_self
          have first' := hc' code' List.mem_cons_self
          have same : code = code' := by
            -- of two codes at the front of the same bytes, one goes on from the other
            obtain shorter | longer := List.prefix_or_prefix_of_prefix
              (List.prefix_append code rest.flatten) (h ▸ List.prefix_append code' rest'.flatten)
            · exact first.eq_of_prefix first' shorter
            · exact (first'.eq_of_prefix first longer).symm
          subst same
          rw [ih (fun c hm => hc c (List.mem_cons_of_mem code hm))
            (fun c hm => hc' c (List.mem_cons_of_mem code hm)) (List.append_cancel_left h)]

end IsCode

/-- Code is uniquely decodable.  Every code takes one to four bytes, no code is a proper prefix of
another, and so the bytes of a row of instructions tell the code of each of them; whatever the
operands are, and whichever symbols, addresses and fallbacks each instruction is encoded with. -/
theorem codes_of_flatten :
    (∀ bytes, IsCode bytes → (1 ≤ bytes.length ∧ bytes.length ≤ 4) ∧ ∀ b ∈ bytes, b < 256) ∧
    (∀ bytes bytes', IsCode bytes → IsCode bytes' → bytes <+: bytes' → bytes = bytes') ∧
    ∀ codes codes' : List (List Nat), (∀ code ∈ codes, IsCode code) →
      (∀ code ∈ codes', IsCode code) → codes.flatten = codes'.flatten → codes = codes' := by
  refine ⟨?length, fun _ _ h h' => h.eq_of_prefix h', fun _ _ hc hc' => IsCode.eq_of_flatten hc hc'⟩
  case length =>
      rintro bytes ⟨ctx, i, h⟩
      exact ⟨Instruction.length_encode h, Instruction.lt_of_mem_code h⟩

/-- A store and a load, the second time with a symbol and an address. -/
theorem codes_of_flatten_store : ∃ codes codes' : List (List Nat),
    [("LD", "(IX+5),7"), ("LD", "B,7")].mapM
      (fun line => (Instruction.parse line.1 line.2).encode { scope := { symbols := ∅ } }) =
        .ok codes ∧
    [("ld", "(ix+Count),$107"), ("ld", "b,Count+2")].mapM
      (fun line => (Instruction.parse line.1 line.2).encode
        ⟨{ symbols := .ofList [("COUNT", 5)] }, some 0x4000, false⟩) = .ok codes' ∧
    codes.flatten = codes'.flatten ∧ codes = codes' ∧
    ∀ code ∈ codes, (1 ≤ code.length ∧ code.length ≤ 4) ∧ (∀ b ∈ code, b < 256) ∧
      ∀ code' ∈ codes', code <+: code' → code = code' := by
  have plain (line : String × String) (bytes : List Nat)
      (h : (Instruction.parse line.1 line.2).encode { scope := { symbols := ∅ } } = .ok bytes) :
      IsCode bytes := ⟨_, _, h⟩
  have store : IsCode [0xDD, 0x36, 0x05, 0x07] := plain ("LD", "(IX+5),7") _ (by decide +kernel)
  have load : IsCode [0x06, 0x07] := plain ("LD", "B,7") _ (by decide +kernel)
  have all : ∀ code ∈ [[0xDD, 0x36, 0x05, 0x07], [0x06, 0x07]], IsCode code := by
    simp [store, load]
  obtain ⟨length, whole, cut⟩ := codes_of_flatten
  refine ⟨[[0xDD, 0x36, 0x05, 0x07], [0x06, 0x07]], _, by decide +kernel, by decide +kernel, rfl,
    cut _ _ all all rfl, fun code hc => ?_⟩
  obtain ⟨size, bytes⟩ := length code (all code hc)
  exact ⟨size, bytes, fun code' hc' => whole code code' (all code hc) (all code' hc')⟩

end Z80Workbench
