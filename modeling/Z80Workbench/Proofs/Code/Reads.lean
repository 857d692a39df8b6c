import Z80Workbench.Proofs.Machine.SameCode

/-!
# Z80Workbench.Proofs.Code.Reads

Expressions that code depends on.  If a form is supported, then every expression of its operands
is among the fields that are read, so that code comes about only if all of them have a value.
There are two exceptions: an index register without an offset, which the jump to it does not read
as zero, and the offset in the exchange of the top of the stack with an index register in
parentheses.
-/

namespace Z80Workbench

/-! ## fields that are read -/

/-- The expression of a field. -/
def Field.expr? : Field → Option Expr
  | opcode _ => none
  | byte e | word e | offset e | relative e | bit _ e | restart e | interruptMode e => some e

namespace Form

/-- The expression is that of a field which is read. -/
def Reads (form : Form) (e : Expr) : Prop := ∃ field ∈ form.reads, field.expr? = some e

/-- If the form is supported, it reads the expressions of the operands, but for an offset that is
left out. -/
def Covers (form : Form) (modes : List Mode) : Prop :=
  form.code?.isSome → ∀ mode ∈ modes, ∀ e, mode.expr? = some e → e = Mode.zeroOffset ∨ form.Reads e

variable {form : Form} {modes : List Mode} {e : Expr}

@[simp] theorem covers_refused {reads : List Field} : (refused reads).Covers modes := nofun

@[simp] theorem covers_unsupported : unsupported.Covers modes := nofun

/-- An operand has no expression, or one that is read. -/
def ReadsMode (form : Form) (mode : Mode) : Prop :=
  mode.expr? = none ∨ ∃ e, mode.expr? = some e ∧ form.Reads e

theorem covers_of_reads (h : ∀ mode ∈ modes, form.ReadsMode mode) : form.Covers modes := by
  intro _ mode hm e he
  obtain plain | ⟨f, hf, read⟩ := h mode hm
  · rw [plain] at he
    cases he
  · rw [hf] at he
    cases he
    exact .inr read

theorem covers_pair {first second : Mode} (hf : form.ReadsMode first)
    (hs : form.ReadsMode second) : form.Covers [first, second] := by
  refine covers_of_reads fun mode hm => ?_
  obtain rfl | rfl : mode = first ∨ mode = second := by simpa using hm
  · exact hf
  · exact hs

/-- An operand without an expression may be added. -/
theorem covers_cons {mode : Mode} (plain : mode.expr? = none) (h : form.Covers modes) :
    form.Covers (mode :: modes) := by
  intro supported other hm e he
  cases hm with
  | head => rw [plain] at he; cases he
  | tail _ hm => exact h supported other hm e he

theorem reads_withByte (bytes : List Nat) (e : Expr) : (withByte bytes e).Reads e :=
  ⟨.byte e, by simp [withByte, code], rfl⟩

theorem reads_withWord (bytes : List Nat) (e : Expr) : (withWord bytes e).Reads e :=
  ⟨.word e, by simp [withWord, code], rfl⟩

/-- A form that reads the offset of a place reads the operand of the place. -/
theorem readsMode_of_place {mode : Mode} {place : Place} (hp : Place.ofMode? mode = some place)
    (h : ∀ field ∈ place.offset, field ∈ form.reads) : form.ReadsMode mode := by
  unfold Place.ofMode? at hp
  split at hp
  case h_1 | h_2 => exact .inl rfl
  case h_3 => cases hp; exact .inr ⟨_, rfl, _, h _ (List.mem_singleton_self _), rfl⟩
  case h_4 => cases hp

/-! ## loads and exchanges -/

theorem covers_loadPair {p : Pair} {source : Mode} :
    (loadPair p source).Covers [.reg16 p, source] := by
  unfold loadPair
  split
  case h_1 | h_2 | h_3 => exact covers_of_reads (by simp [ReadsMode, Mode.expr?, reads_withWord])
  case h_4 | h_5 => exact covers_of_reads (by simp [ReadsMode, Mode.expr?])
  case h_6 | h_7 =>
      split
      · exact covers_of_reads (by simp [ReadsMode, Mode.expr?, reads_withWord])
      · exact covers_unsupported
  case h_8 => exact covers_unsupported

theorem covers_storePair {address : Expr} {p : Pair} :
    (storePair address p).Covers [.absolute address, .reg16 p] := by
  unfold storePair
  split
  case h_1 | h_2 => exact covers_of_reads (by simp [ReadsMode, Mode.expr?, reads_withWord])
  case h_3 =>
      split
      · exact covers_of_reads (by simp [ReadsMode, Mode.expr?, reads_withWord])
      · exact covers_unsupported

theorem covers_loadOther {offsets : List Field} {target source : Mode} :
    (loadOther offsets target source).Covers [target, source] := by
  unfold loadOther
  split
  case h_1 | h_2 | h_4 | h_5 => exact covers_of_reads (by simp [ReadsMode, Mode.expr?])
  case h_3 | h_6 => exact covers_of_reads (by simp [ReadsMode, Mode.expr?, reads_withWord])
  case h_7 => exact covers_storePair
  case h_8 =>
      split
      · exact covers_loadPair
      · exact covers_refused
  case h_9 => exact covers_refused

theorem covers_load {target source : Mode} : (load target source).Covers [target, source] := by
  unfold load
  split
  case h_1 | h_2 | h_3 | h_4 => exact covers_of_reads (by simp [ReadsMode, Mode.expr?])
  cases hd : Place.ofMode? target with
  | none =>
      cases Place.ofMode? source with
      | none => exact covers_loadOther
      | some s => exact covers_loadOther
  | some d =>
      cases hs : Place.ofMode? source with
      | none =>
          cases source with
          | immediate e =>
              exact covers_pair (readsMode_of_place hd (by simp +contextual [code]))
                (.inr ⟨e, rfl, .byte e, by simp [code], rfl⟩)
          | _ => exact covers_loadOther
      | some s =>
          simp only
          split
          · exact covers_refused
          · exact covers_pair (readsMode_of_place hd (by simp +contextual [code]))
              (readsMode_of_place hs (by simp +contextual [code]))

theorem covers_stack {base : Nat} {mode : Mode} : (stack base mode).Covers [mode] := by
  unfold stack
  split
  case h_1 => exact covers_of_reads (by simp [ReadsMode, Mode.expr?])
  case h_2 =>
      split
      · exact covers_of_reads (by simp [ReadsMode, Mode.expr?])
      · exact covers_unsupported
  case h_3 => exact covers_unsupported

/-- An exchange reads nothing, not even the offset of an index register in parentheses. -/
theorem covers_exchange {first second : Mode}
    (h : first = .indirect .sp → ∀ x offset, second ≠ .indexed x offset) :
    (exchange first second).Covers [first, second] := by
  unfold exchange
  split
  case h_1 | h_2 | h_3 => exact covers_of_reads (by simp [ReadsMode, Mode.expr?])
  case h_4 =>
      cases second with
      | indexed x offset => exact absurd rfl (h rfl x offset)
      | reg8 | reg16 | indirect => exact covers_of_reads (by simp [ReadsMode, Mode.expr?])
      | immediate | absolute => exact covers_unsupported
  case h_5 => exact covers_unsupported

/-! ## arithmetic, shifts and bits -/

theorem covers_accumulator {op : Alu} {source : Mode} :
    (accumulator op source).Covers [source] := by
  unfold accumulator
  split
  case h_1 place _ hp =>
      exact covers_of_reads
        (by simpa using readsMode_of_place hp (by simp +contextual [Place.form, code]))
  case h_2 => exact covers_of_reads (by simp [ReadsMode, Mode.expr?, reads_withByte])
  case h_3 => exact covers_unsupported

theorem covers_arithmetic {op : Alu} : (arithmetic op modes).Covers modes := by
  unfold arithmetic
  split
  case h_1 => exact covers_accumulator
  case h_2 => exact covers_of_reads (by simp [ReadsMode, Mode.expr?])
  case h_3 => exact covers_cons rfl covers_accumulator
  case h_4 => exact covers_unsupported

theorem covers_count {byteOpcode pairOpcode : Nat} {mode : Mode} :
    (count byteOpcode pairOpcode mode).Covers [mode] := by
  unfold count
  split
  case h_1 place _ hp =>
      exact covers_of_reads
        (by simpa using readsMode_of_place hp (by simp +contextual [Place.form, code]))
  case h_2 | h_3 => exact covers_of_reads (by simp [ReadsMode, Mode.expr?])
  case h_4 => exact covers_unsupported

theorem covers_shift {op : Shift} {mode : Mode} : (shift op mode).Covers [mode] := by
  unfold shift
  split
  case h_1 place hp =>
      exact covers_of_reads
        (by simpa using readsMode_of_place hp (by simp +contextual [Place.bitGroup, code]))
  case h_2 => exact covers_unsupported

theorem covers_bit {action : BitAction} {number mode : Mode} :
    (bit action number mode).Covers [number, mode] := by
  unfold bit
  split
  case h_1 e =>
      split
      case h_1 place hp =>
          exact covers_pair (.inr ⟨e, rfl, _, List.mem_cons_self, rfl⟩)
            (readsMode_of_place hp fun field hf => List.mem_cons_of_mem _ hf)
      case h_2 => exact covers_refused
  case h_2 => exact covers_unsupported

/-! ## control transfers and ports -/

/-- The jump to an index register reads no offset, and none can be given. -/
theorem covers_jump {condition : Option Condition} {target : Mode} :
    (jump condition target).Covers [target] := by
  unfold jump
  split
  case h_1 => exact covers_of_reads (by simp [ReadsMode, Mode.expr?])
  case h_2 x =>
      intro _ mode hm e he
      cases List.mem_singleton.mp hm
      cases he
      exact .inl rfl
  case h_3 | h_4 => exact covers_of_reads (by simp [ReadsMode, Mode.expr?, reads_withWord])
  case h_5 => exact covers_unsupported

theorem reads_relative (opcode : Nat) (e : Expr) : (code [.opcode opcode, .relative e]).Reads e :=
  ⟨.relative e, by simp [code], rfl⟩

theorem covers_jumpRelative {condition : Option Condition} {target : Mode} :
    (jumpRelative condition target).Covers [target] := by
  unfold jumpRelative
  split
  case h_1 => exact covers_of_reads (by simp [ReadsMode, Mode.expr?, reads_relative])
  case h_2 =>
      split
      · exact covers_of_reads (by simp [ReadsMode, Mode.expr?, reads_relative])
      · exact covers_unsupported
  case h_3 => exact covers_unsupported

theorem covers_call {condition : Option Condition} {target : Mode} :
    (call condition target).Covers [target] := by
  unfold call
  split
  case h_1 | h_2 => exact covers_of_reads (by simp [ReadsMode, Mode.expr?, reads_withWord])
  case h_3 => exact covers_unsupported

theorem covers_input {target port : Mode} : (input target port).Covers [target, port] := by
  unfold input
  split
  case h_1 => exact covers_of_reads (by simp [ReadsMode, Mode.expr?, reads_withByte])
  case h_2 => exact covers_of_reads (by simp [ReadsMode, Mode.expr?])
  case h_3 => exact covers_unsupported

theorem covers_output {port source : Mode} : (output port source).Covers [port, source] := by
  unfold output
  split
  case h_1 => exact covers_of_reads (by simp [ReadsMode, Mode.expr?, reads_withByte])
  case h_2 => exact covers_of_reads (by simp [ReadsMode, Mode.expr?])
  case h_3 => exact covers_unsupported

/-! ## all instructions -/

/-- The form of an instruction reads the expressions of all its operands, unless it is the exchange
of the top of the stack with an index register in parentheses. -/
theorem covers_ofParts {m : Mnemonic} {condition : Option Condition}
    (h : Command.pointedPair? ⟨m, condition, modes⟩ = none) :
    (ofParts m condition modes).Covers modes := by
  unfold ofParts
  split
  case h_1 => exact covers_of_reads nofun
  case h_2 => exact covers_load
  case h_3 | h_4 => exact covers_stack
  case h_5 =>
      refine covers_exchange fun hf x offset hs => ?_
      rw [hf, hs] at h
      cases h
  case h_6 => exact covers_arithmetic
  case h_7 | h_8 => exact covers_count
  case h_9 => exact covers_shift
  case h_10 => exact covers_bit
  case h_11 => exact covers_jump
  case h_12 => exact covers_jumpRelative
  case h_13 => exact covers_of_reads (by simp [ReadsMode, Mode.expr?, reads_relative])
  case h_14 => exact covers_call
  case h_15 => exact covers_of_reads nofun
  case h_16 vector _ =>
      intro _ mode hm e he
      cases List.mem_singleton.mp hm
      cases he
      exact .inr ⟨.restart vector, List.mem_singleton_self _, rfl⟩
  case h_17 mode _ =>
      intro _ other hm e he
      cases List.mem_singleton.mp hm
      exact .inr ⟨.interruptMode e, by simp [code, he], rfl⟩
  case h_18 => exact covers_input
  case h_19 => exact covers_output
  case h_20 => exact covers_unsupported

end Form

/-! ## code depends on every expression -/

variable {ctx : Context}

/-- A field that is filled has a value. -/
theorem Field.isSome_of_fill {field : Field} {bytes : List Nat} {e : Expr}
    (strict : ctx.lenient = false) (he : field.expr? = some e) (h : field.fill ctx = .ok bytes) :
    (e.value? ctx.scope).isSome := by
  have known : ∀ n, ctx.value e = .ok n → (e.value? ctx.scope).isSome := by
    intro n hn
    unfold Context.value at hn
    split at hn
    · simp_all
    · simp [strict] at hn
  cases field with
  | opcode n => cases he
  | byte e | word e =>
      cases he
      obtain ⟨n, hn, -⟩ := map_eq_ok.mp h
      exact known n hn
  | offset e | bit base e | restart e | interruptMode e =>
      cases he
      obtain ⟨n, hn, -⟩ := bind_eq_ok.mp h
      exact known n hn
  | relative e =>
      cases he
      cases hv : e.value? ctx.scope with
      | some n => rfl
      | none => simp [fill, fillRelative, hv, strict] at h

theorem Field.isSome_of_fillAll {fields : List Field} {bytes : List Nat} {e : Expr}
    (strict : ctx.lenient = false) (h : fillAll ctx fields = .ok bytes)
    (he : ∃ field ∈ fields, field.expr? = some e) : (e.value? ctx.scope).isSome := by
  induction fields generalizing bytes with
  | nil => simp at he
  | cons first rest ih =>
      obtain ⟨front, hf, h⟩ := bind_eq_ok.mp h
      obtain ⟨back, hb, -⟩ := bind_eq_ok.mp h
      obtain ⟨field, hm, hv⟩ := he
      cases hm with
      | head => exact isSome_of_fill strict hv hf
      | tail _ hm => exact ih hb ⟨field, hm, hv⟩

theorem Mode.isSome_zeroOffset (scope : Expr.Scope) : (zeroOffset.value? scope).isSome := by
  have zero : zeroOffset.whole = .number 0 := by decide +kernel
  rw [Expr.value?, zero]
  rfl

namespace Instruction

/-- The expressions in the operands of an instruction. -/
def expressions (i : Instruction) : List Expr := i.operands.filterMap (·.mode.expr?)

theorem pointedPair_of_plain {i : Instruction} {m : Mnemonic} (ho : i.operation = .mnemonic m)
    (plain : i.isPointedExchange = false) :
    Command.pointedPair? ⟨m, i.condition, i.operands.map (·.mode)⟩ = none := by
  simpa [isPointedExchange, command?, ho] using plain

/-- An instruction that can be encoded has operands with values only, unless it is an exchange of
the top of the stack that has its pair in parentheses. -/
theorem isSome_of_encode {i : Instruction} {bytes : List Nat} (strict : ctx.lenient = false)
    (h : i.encode ctx = .ok bytes) (plain : i.isPointedExchange = false) {e : Expr}
    (he : e ∈ i.expressions) : (e.value? ctx.scope).isSome := by
  obtain ⟨operand, ho, hx⟩ := List.mem_filterMap.mp he
  obtain ⟨read, fields, hr, hc, -⟩ := encode_eq_ok.mp h
  cases hop : i.operation with
  | directive d => simp [form, hop, Form.unsupported, Form.refused] at hc
  | unknown word => simp [form, hop, Form.unsupported, Form.refused] at hc
  | mnemonic m =>
      have covers := Form.covers_ofParts (pointedPair_of_plain hop plain)
      rw [form, hop] at hr hc
      obtain rfl | reads := covers (by simp [hc]) _ (List.mem_map_of_mem ho) e hx
      · exact Mode.isSome_zeroOffset ctx.scope
      · exact Field.isSome_of_fillAll strict hr reads

end Instruction

end Z80Workbench
