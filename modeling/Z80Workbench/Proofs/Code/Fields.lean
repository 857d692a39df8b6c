import Z80Workbench.Code.Form

/-!
# Z80Workbench.Proofs.Code.Fields

The fields of a form.  Whatever the operands of an instruction are, the opcodes of its form are
bytes, and only expressions of its own operands get into it.  Both are shown at once, group by
group, and for any property of expressions; that of having been read from a text is the one used
later.
-/

namespace Z80Workbench

/-! ## the fields of a form -/

/-- The opcode of the field is a byte, and its expression, if it has one, has a property. -/
def Field.Holds (P : Expr → Prop) : Field → Prop
  | opcode n => n < 256
  | bit base e => base < 200 ∧ P e
  | byte e | word e | offset e | relative e | restart e | interruptMode e => P e

/-- The expression of the addressing mode, if it has one, has a property. -/
def Mode.Holds (P : Expr → Prop) (mode : Mode) : Prop := ∀ e, mode.expr? = some e → P e

/-- The bits are three, and the fields in front of and behind the main opcode have a property. -/
structure Place.Holds (P : Expr → Prop) (place : Place) : Prop where
  bits : place.bits < 8
  opening : ∀ field ∈ place.opening, field.Holds P
  offset : ∀ field ∈ place.offset, field.Holds P

/-- Every field of the form has a property. -/
def Form.Holds (P : Expr → Prop) (form : Form) : Prop :=
  ∀ field ∈ form.reads ++ form.code?.getD [], field.Holds P

theorem Reg8.code_lt {register : Reg8} {bits : Nat} (h : register.code? = some bits) :
    bits < 8 := by
  cases register <;> cases h <;> decide

theorem Pair.code_lt {p : Pair} {code : Nat} (h : p.code? = some code) : code < 4 := by
  cases p <;> cases h <;> decide

theorem Pair.stackCode_lt {p : Pair} {code : Nat} (h : p.stackCode? = some code) : code < 4 := by
  cases p <;> cases h <;> decide

theorem Index.opcode_lt (x : Index) : x.opcode < 256 := by
  cases x <;> decide

theorem BitAction.base_lt (action : BitAction) : action.base < 193 := by
  cases action <;> decide

theorem Stride.code_lt (s : Stride) : s.code < 25 := by
  rcases s with ⟨_ | _, _ | _⟩ <;> decide

variable {P : Expr → Prop}

@[simp] theorem Field.holds_opcode {n : Nat} : (opcode n).Holds P ↔ n < 256 := Iff.rfl

@[simp] theorem Field.holds_byte {e : Expr} : (byte e).Holds P ↔ P e := Iff.rfl

@[simp] theorem Field.holds_word {e : Expr} : (word e).Holds P ↔ P e := Iff.rfl

@[simp] theorem Field.holds_offset {e : Expr} : (offset e).Holds P ↔ P e := Iff.rfl

@[simp] theorem Field.holds_relative {e : Expr} : (relative e).Holds P ↔ P e := Iff.rfl

@[simp] theorem Field.holds_bit {base : Nat} {e : Expr} :
    (bit base e).Holds P ↔ base < 200 ∧ P e := Iff.rfl

@[simp] theorem Field.holds_restart {e : Expr} : (restart e).Holds P ↔ P e := Iff.rfl

@[simp] theorem Field.holds_interruptMode {e : Expr} : (interruptMode e).Holds P ↔ P e := Iff.rfl

@[simp] theorem Mode.holds_immediate {e : Expr} : (immediate e).Holds P ↔ P e := by
  simp [Holds, expr?]

@[simp] theorem Mode.holds_absolute {e : Expr} : (absolute e).Holds P ↔ P e := by
  simp [Holds, expr?]

@[simp] theorem Mode.holds_indexed {x : Index} {offset : Option Expr} :
    (indexed x offset).Holds P ↔ P (offset.getD zeroOffset) := by
  simp [Holds, expr?]

theorem Place.holds_ofMode {mode : Mode} {place : Place} (h : ofMode? mode = some place)
    (hm : mode.Holds P) : place.Holds P := by
  unfold ofMode? at h
  split at h
  · obtain ⟨bits, hb, rfl⟩ := Option.map_eq_some_iff.mp h
    exact ⟨Reg8.code_lt hb, by simp, by simp⟩
  · cases h
    exact ⟨by decide, by simp, by simp⟩
  case h_3 x offset =>
      cases h
      exact ⟨Nat.lt_of_sub_eq_succ rfl, by simp [Index.opcode_lt], by simpa using hm⟩
  · contradiction

theorem Place.bits_lt {mode : Mode} {place : Place} (h : ofMode? mode = some place) :
    place.bits < 8 :=
  (holds_ofMode (P := fun _ => True) h fun _ _ => trivial).bits

theorem Field.Holds.imp {Q : Expr → Prop} {field : Field} (h : field.Holds P)
    (hpq : ∀ e, P e → Q e) : field.Holds Q := by
  cases field with
  | opcode n => exact h
  | bit base e => exact ⟨h.1, hpq e h.2⟩
  | _ => exact hpq _ h

theorem Form.Holds.imp {Q : Expr → Prop} {form : Form} (h : form.Holds P)
    (hpq : ∀ e, P e → Q e) : form.Holds Q :=
  fun field hf => (h field hf).imp hpq

namespace Form

@[simp] theorem holds_code {fields : List Field} :
    (code fields).Holds P ↔ ∀ field ∈ fields, field.Holds P := by
  simp [Holds, code]

@[simp] theorem holds_refused {reads : List Field} :
    (refused reads).Holds P ↔ ∀ field ∈ reads, field.Holds P := by
  simp [Holds, refused]

@[simp] theorem holds_unsupported : unsupported.Holds P := by
  simp [unsupported]

@[simp] theorem holds_fixed {bytes : List Nat} : (fixed bytes).Holds P ↔ ∀ n ∈ bytes, n < 256 := by
  simp [fixed]

@[simp] theorem holds_withByte {bytes : List Nat} {e : Expr} :
    (withByte bytes e).Holds P ↔ (∀ n ∈ bytes, n < 256) ∧ P e := by
  simp [withByte, or_imp, forall_and]

@[simp] theorem holds_withWord {bytes : List Nat} {e : Expr} :
    (withWord bytes e).Holds P ↔ (∀ n ∈ bytes, n < 256) ∧ P e := by
  simp [withWord, or_imp, forall_and]

/- The forms of one group of instructions after the other: opcodes are bytes, and whatever the
operands are, only their own expressions get into the form. -/

theorem holds_loadPair {p : Pair} {source : Mode} (h : source.Holds P) :
    (loadPair p source).Holds P := by
  unfold loadPair
  split
  case h_6 =>
      split
      case h_1 code hc =>
          have := Pair.code_lt hc
          rw [holds_withWord]
          exact ⟨by simp; omega, Mode.holds_immediate.mp h⟩
      case h_2 => simp
  case h_7 =>
      split
      case h_1 code hc =>
          have := Pair.code_lt hc
          rw [holds_withWord]
          exact ⟨by simp; omega, Mode.holds_absolute.mp h⟩
      case h_2 => simp
  all_goals simp_all [Index.opcode_lt]

theorem holds_storePair {address : Expr} {p : Pair} (h : P address) :
    (storePair address p).Holds P := by
  unfold storePair
  split
  case h_3 =>
      split
      case h_1 code hc =>
          have := Pair.code_lt hc
          simp_all
          omega
      case h_2 => simp
  all_goals simp_all [Index.opcode_lt]

theorem holds_loadOther {offsets : List Field} {target source : Mode}
    (ho : ∀ field ∈ offsets, field.Holds P) (ht : target.Holds P) (hs : source.Holds P) :
    (loadOther offsets target source).Holds P := by
  unfold loadOther
  split
  case h_8 =>
      split
      · exact holds_loadPair hs
      · simpa using ho
  case h_7 => exact holds_storePair (Mode.holds_absolute.mp ht)
  all_goals simp_all

theorem holds_load {target source : Mode} (ht : target.Holds P) (hs : source.Holds P) :
    (load target source).Holds P := by
  unfold load
  split
  case h_1 | h_2 | h_3 | h_4 => simp
  cases hd : Place.ofMode? target with
  | none =>
      cases hp : Place.ofMode? source with
      | none => exact holds_loadOther (by simp) ht hs
      | some s => exact holds_loadOther (Place.holds_ofMode hp hs).offset ht hs
  | some d =>
      obtain ⟨db, dop, dof⟩ : d.Holds P := Place.holds_ofMode hd ht
      cases hp : Place.ofMode? source with
      | none =>
          cases source with
          | immediate e =>
              rw [Mode.holds_immediate] at hs
              simp_all [or_imp]
              omega
          | _ => exact holds_loadOther dof ht hs
      | some s =>
          obtain ⟨sb, sop, sof⟩ : s.Holds P := Place.holds_ofMode hp hs
          simp only
          split
          · simp_all [or_imp]
          · simp_all [or_imp]
            omega

theorem holds_stack {base : Nat} {mode : Mode} (h : base < 200) :
    (stack base mode).Holds P := by
  unfold stack
  split
  case h_1 x =>
      have := x.opcode_lt
      simp
      omega
  case h_2 =>
      split
      case h_1 code hc =>
          have := Pair.stackCode_lt hc
          simp
          omega
      case h_2 => simp
  case h_3 => simp

theorem holds_exchange {first second : Mode} : (exchange first second).Holds P := by
  unfold exchange
  split
  case h_4 => split <;> simp [Index.opcode_lt]
  all_goals simp

theorem holds_place {place : Place} {opcode : Nat} (h : place.Holds P) (ho : opcode < 256) :
    (place.form opcode).Holds P := by
  obtain ⟨_, hopening, hoffset⟩ := h
  simp_all [Place.form, or_imp]

theorem holds_accumulator {op : Alu} {source : Mode} (h : source.Holds P) :
    (accumulator op source).Holds P := by
  have := op.code_lt
  unfold accumulator
  split
  case h_1 place _ hp =>
      have hp := Place.holds_ofMode hp h
      have := hp.bits
      exact holds_place hp (by omega)
  case h_2 =>
      rw [Mode.holds_immediate] at h
      simp [h]
      omega
  case h_3 => simp

theorem holds_pairs {op : Alu} {p q : Pair} : (pairs op p q).Holds P := by
  unfold pairs
  split
  case h_1 =>
      cases hc : q.code? with
      | none => cases op <;> simp
      | some code =>
          have := Pair.code_lt hc
          cases op <;> simp <;> omega
  case h_2 x =>
      dsimp only
      generalize hc : (if q = .index x then some 2 else if q = .hl then none else q.code?) = code?
      have hx := x.opcode_lt
      cases code? with
      | none => cases op <;> simp
      | some code =>
          have : code < 4 := by
            split at hc
            · cases hc; decide
            · split at hc
              · contradiction
              · exact Pair.code_lt hc
          cases op <;> simp [hx]
          omega
  case h_3 => simp

theorem holds_arithmetic {op : Alu} {modes : List Mode} (h : ∀ mode ∈ modes, mode.Holds P) :
    (arithmetic op modes).Holds P := by
  unfold arithmetic
  split
  · exact holds_accumulator (h _ (by simp))
  · exact holds_pairs
  · exact holds_accumulator (h _ (by simp))
  · simp

theorem holds_count {byteOpcode pairOpcode : Nat} {mode : Mode} (h : mode.Holds P)
    (hb : byteOpcode < 200) (hp : pairOpcode < 200) :
    (count byteOpcode pairOpcode mode).Holds P := by
  unfold count
  split
  case h_1 place _ hp =>
      have hp := Place.holds_ofMode hp h
      have := hp.bits
      exact holds_place hp (by omega)
  case h_2 x _ =>
      have := x.opcode_lt
      simp
      omega
  case h_3 =>
      split
      case h_1 code hc =>
          have := Pair.code_lt hc
          simp
          omega
      case h_2 => simp
  case h_4 => simp

theorem holds_bitGroup {place : Place} {last : Field} (h : place.Holds P) (hl : last.Holds P) :
    ∀ field ∈ place.bitGroup last, field.Holds P := by
  obtain ⟨_, hopening, hoffset⟩ := h
  simp_all [Place.bitGroup, or_imp]

theorem holds_shift {op : Shift} {mode : Mode} (h : mode.Holds P) : (shift op mode).Holds P := by
  unfold shift
  split
  case h_1 place hp =>
      have hp := Place.holds_ofMode hp h
      have := hp.bits
      have := op.code_lt
      exact holds_code.mpr (holds_bitGroup hp (by rw [Field.holds_opcode]; omega))
  case h_2 => simp

theorem holds_bit {action : BitAction} {number mode : Mode} (hn : number.Holds P)
    (h : mode.Holds P) : (bit action number mode).Holds P := by
  have := action.base_lt
  unfold bit
  split
  case h_1 e =>
      rw [Mode.holds_immediate] at hn
      split
      case h_1 place hp =>
          have hp := Place.holds_ofMode hp h
          have := hp.bits
          have last : (Field.bit (action.base + place.bits) e).Holds P := ⟨by omega, hn⟩
          simpa [Holds, or_imp, forall_and, last] using
            ⟨hp.offset, holds_bitGroup hp last⟩
      case h_2 => simpa using ⟨by omega, hn⟩
  case h_2 => simp

theorem holds_jump {condition : Option Condition} {target : Mode} (h : target.Holds P) :
    (jump condition target).Holds P := by
  unfold jump
  split
  case h_2 x => simp [x.opcode_lt]
  case h_4 condition e =>
      have := condition.code_lt
      rw [Mode.holds_immediate] at h
      simp [h]
      omega
  all_goals simp_all

theorem holds_jumpRelative {condition : Option Condition} {target : Mode} (h : target.Holds P) :
    (jumpRelative condition target).Holds P := by
  unfold jumpRelative
  split
  case h_2 condition e =>
      have := condition.code_lt
      rw [Mode.holds_immediate] at h
      split
      · simp [h]
        omega
      · simp
  all_goals simp_all

theorem holds_call {condition : Option Condition} {target : Mode} (h : target.Holds P) :
    (call condition target).Holds P := by
  unfold call
  split
  case h_2 condition e =>
      have := condition.code_lt
      rw [Mode.holds_immediate] at h
      simp [h]
      omega
  all_goals simp_all

theorem holds_ret {condition : Option Condition} : (ret condition).Holds P := by
  unfold ret
  split
  case h_1 => simp
  case h_2 condition =>
      have := condition.code_lt
      simp
      omega

theorem holds_input {target port : Mode} (h : port.Holds P) : (input target port).Holds P := by
  unfold input
  split
  case h_1 => simp_all
  case h_2 =>
      split
      case h_1 bits hb =>
          have := Reg8.code_lt hb
          simp
          omega
      case h_2 => simp
  case h_3 => simp

theorem holds_output {port source : Mode} (h : port.Holds P) :
    (output port source).Holds P := by
  unfold output
  split
  case h_1 => simp_all
  case h_2 =>
      split
      case h_1 bits hb =>
          have := Reg8.code_lt hb
          simp
          omega
      case h_2 => simp
  case h_3 => simp

/-- The code of an instruction without operands consists of bytes. -/
theorem implied_lt {m : Mnemonic} {bytes : List Nat} (h : implied? m = some bytes) :
    ∀ n ∈ bytes, n < 256 := by
  unfold implied? at h
  split at h
  case h_19 s | h_20 s | h_21 s | h_22 s =>
      have := s.code_lt
      cases h
      simp
      omega
  case h_23 => cases h
  all_goals
    cases h
    decide

/-- Every expression in the form of an instruction comes from an operand, but for the empty one
that stands for an interrupt mode which is no value; and every opcode is a byte. -/
theorem holds_ofParts {m : Mnemonic} {condition : Option Condition} {modes : List Mode}
    (h : ∀ mode ∈ modes, mode.Holds P) (hb : P (Expr.ofString "")) :
    (ofParts m condition modes).Holds P := by
  unfold ofParts
  split
  case h_1 bytes _ hi => exact holds_fixed.mpr (implied_lt hi)
  case h_2 => exact holds_load (h _ (by simp)) (h _ (by simp))
  case h_3 => exact holds_stack (by decide)
  case h_4 => exact holds_stack (by decide)
  case h_5 => exact holds_exchange
  case h_6 => exact holds_arithmetic h
  case h_7 => exact holds_count (h _ (by simp)) (by decide) (by decide)
  case h_8 => exact holds_count (h _ (by simp)) (by decide) (by decide)
  case h_9 => exact holds_shift (h _ (by simp))
  case h_10 => exact holds_bit (h _ (by simp)) (h _ (by simp))
  case h_11 => exact holds_jump (h _ (by simp))
  case h_12 => exact holds_jumpRelative (h _ (by simp))
  case h_13 target _ => simpa using h (.immediate target) (by simp)
  case h_14 => exact holds_call (h _ (by simp))
  case h_15 => exact holds_ret
  case h_16 vector _ => simpa using h (.immediate vector) (by simp)
  case h_17 mode _ =>
      have hm : mode.Holds P := h mode (by simp)
      cases he : mode.expr? with
      | none => simpa using hb
      | some e => simpa using hm e he
  case h_18 => exact holds_input (h _ (by simp))
  case h_19 => exact holds_output (h _ (by simp))
  case h_20 => simp

end Form

/-! ## every expression has been read -/

namespace Expr

/-- The expression has been read from a text. -/
def IsRead (e : Expr) : Prop := ∃ text, e = read text

theorem isRead_ofString (s : String) : (ofString s).IsRead := ⟨s.toList, rfl⟩

end Expr

/-- The offset of an index register has been read from its text. -/
theorem Operand.isRead_indexed {text : List Char} {mode : Mode} (h : indexed? text = some mode) :
    mode.Holds Expr.IsRead := by
  unfold indexed? at h
  split at h
  case h_2 => contradiction
  case h_1 =>
      dsimp only at h
      split at h
      · cases h
        rw [Mode.holds_indexed]
        exact Expr.isRead_ofString "0"
      · split at h
        · cases h
          rw [Mode.holds_indexed]
          exact ⟨_, rfl⟩
        · contradiction
      · contradiction

/-- The expression of an operand has been read from its text. -/
theorem Operand.isRead_modeOf (text : List Char) : (modeOf text).Holds Expr.IsRead := by
  have inside : ∀ inner, (modeInside inner).Holds Expr.IsRead := by
    intro inner
    unfold modeInside
    split
    · exact fun _ he => nomatch he
    · cases hi : indexed? inner with
      | none => exact Mode.holds_absolute.mpr ⟨inner, rfl⟩
      | some mode => exact isRead_indexed hi
  unfold modeOf
  dsimp only
  split
  · exact fun _ he => nomatch he
  · split
    · exact fun _ he => nomatch he
    · split
      · exact inside _
      · exact Mode.holds_immediate.mpr ⟨text, rfl⟩

/-- All expressions in the form of an instruction that has been read have been read. -/
theorem Instruction.isRead_form (operation : Operation) (args : List Char) :
    (ofArgs operation args).form.Holds Expr.IsRead := by
  unfold form
  split
  case h_2 => simp
  case h_1 =>
      refine Form.holds_ofParts (fun mode hm => ?_) (Expr.isRead_ofString "")
      obtain ⟨operand, ho, rfl⟩ := List.mem_map.mp hm
      obtain ⟨text, _, rfl⟩ := List.mem_map.mp ho
      exact Operand.isRead_modeOf _

end Z80Workbench
