import Mathlib.Data.List.Basic
import Z80Workbench.Code.Form
import Z80Workbench.Isa.Timing
import Z80Workbench.Proofs.Except

/-!
# Z80Workbench.Proofs.Code.Rewriting

Forms and expressions.  The form of an instruction is made from the kinds of its operands; their
expressions are only handed on to its fields.  So replacing every expression of the operands by
another one replaces it in the fields of the form, and where the new expressions have the values
of the old ones, the code is the same.
-/

namespace Z80Workbench

/-! ## replacing expressions -/

/-- The mode with its expression replaced. -/
def Mode.map (f : Expr → Expr) : Mode → Mode
  | immediate e => immediate (f e)
  | indexed x offset => indexed x (offset.map f)
  | absolute e => absolute (f e)
  | mode => mode

/-- The field with its expression replaced. -/
def Field.map (f : Expr → Expr) : Field → Field
  | opcode n => opcode n
  | byte e => byte (f e)
  | word e => word (f e)
  | offset e => offset (f e)
  | relative e => relative (f e)
  | bit base e => bit base (f e)
  | restart e => restart (f e)
  | interruptMode e => interruptMode (f e)

/-- The place with its expressions replaced. -/
def Place.map (f : Expr → Expr) (place : Place) : Place where
  opening := place.opening.map (Field.map f)
  bits := place.bits
  offset := place.offset.map (Field.map f)

/-- The form with its expressions replaced. -/
def Form.map (f : Expr → Expr) (form : Form) : Form where
  reads := form.reads.map (Field.map f)
  code? := form.code?.map (List.map (Field.map f))

variable {f : Expr → Expr}

@[simp] theorem Field.map_opcodes (bytes : List Nat) :
    (bytes.map Field.opcode).map (Field.map f) = bytes.map Field.opcode := by
  rw [List.map_map]
  rfl

@[simp] theorem Mode.shape_map (mode : Mode) : (mode.map f).shape = mode.shape := by
  cases mode <;> rfl

@[simp] theorem Mode.pair?_map (mode : Mode) : (mode.map f).pair? = mode.pair? := by
  cases mode <;> rfl

theorem Place.ofMode?_map (zero : f Mode.zeroOffset = Mode.zeroOffset) (mode : Mode) :
    ofMode? (mode.map f) = (ofMode? mode).map (Place.map f) := by
  cases mode with
  | reg8 register => cases register <;> rfl
  | indirect p => cases p <;> rfl
  | indexed x offset => cases offset <;> simp [Mode.map, ofMode?, Place.map, Field.map, zero]
  | _ => rfl

namespace Form

@[simp] theorem map_code (fields : List Field) :
    (code fields).map f = code (fields.map (Field.map f)) := rfl

@[simp] theorem map_fixed (bytes : List Nat) : (fixed bytes).map f = fixed bytes := by
  rw [fixed, map_code, Field.map_opcodes]

@[simp] theorem map_withByte (bytes : List Nat) (e : Expr) :
    (withByte bytes e).map f = withByte bytes (f e) := by
  rw [withByte, withByte, map_code, List.map_append, Field.map_opcodes]
  rfl

@[simp] theorem map_withWord (bytes : List Nat) (e : Expr) :
    (withWord bytes e).map f = withWord bytes (f e) := by
  rw [withWord, withWord, map_code, List.map_append, Field.map_opcodes]
  rfl

@[simp] theorem map_refused (reads : List Field) :
    (refused reads).map f = refused (reads.map (Field.map f)) := rfl

@[simp] theorem map_unsupported : unsupported.map f = unsupported := rfl

@[simp] theorem map_place (place : Place) (opcode : Nat) :
    (place.map f).form opcode = (place.form opcode).map f := by
  simp [Place.form, Place.map, Field.map]

/-! ## groups of instructions -/

theorem loadPair_map (p : Pair) (source : Mode) :
    loadPair p (source.map f) = (loadPair p source).map f := by
  cases source with
  | immediate e | absolute e => cases p <;> simp [Mode.map, loadPair, Pair.code?]
  | reg16 q => cases p <;> cases q <;> simp [Mode.map, loadPair]
  | _ => cases p <;> simp [Mode.map, loadPair]

theorem storePair_map (e : Expr) (p : Pair) : storePair (f e) p = (storePair e p).map f := by
  cases p <;> simp [storePair, Pair.code?]

theorem loadOther_map (offsets : List Field) (target source : Mode) :
    loadOther (offsets.map (Field.map f)) (target.map f) (source.map f) =
      (loadOther offsets target source).map f := by
  cases target with
  | reg16 p =>
      have pair := loadPair_map (f := f) p source
      cases source <;> cases offsets <;> first | rfl | exact pair
  | reg8 register =>
      cases register <;> cases source with
      | indirect q => cases q <;> simp [Mode.map, loadOther]
      | _ => simp [Mode.map, loadOther]
  | indirect p =>
      cases p <;> cases source with
      | reg8 register => cases register <;> simp [Mode.map, loadOther]
      | _ => simp [Mode.map, loadOther]
  | absolute e =>
      cases source with
      | reg8 register => cases register <;> simp [Mode.map, loadOther]
      | reg16 p => exact storePair_map e p
      | _ => rfl
  | _ => cases source <;> rfl

/-- Unless both are registers, operands are loaded as places where they are ones. -/
theorem load_places {target source : Mode} : (∀ p q, target = .reg8 p → source ≠ .reg8 q) →
    load target source =
      match Place.ofMode? target, Place.ofMode? source, source with
      | some d, some s, _ =>
        if d.bits = 6 ∧ s.bits = 6 then refused (d.offset ++ s.offset)
        else
          code (d.opening ++ s.opening ++ [Field.opcode (0x40 + 8 * d.bits + s.bits)] ++
            d.offset ++ s.offset)
      | some d, none, .immediate e =>
        code (d.opening ++ [Field.opcode (0x06 + 8 * d.bits)] ++ d.offset ++ [Field.byte e])
      | some d, none, _ => loadOther d.offset target source
      | none, some s, _ => loadOther s.offset target source
      | none, none, _ => loadOther [] target source := by
  intro plain
  cases target with
  | reg8 register =>
      cases source with
      | reg8 other => exact (plain _ _ rfl rfl).elim
      | _ => cases register <;> rfl
  | _ => rfl

theorem load_map (zero : f Mode.zeroOffset = Mode.zeroOffset) (target source : Mode) :
    load (target.map f) (source.map f) = (load target source).map f := by
  by_cases registers : ∃ p q, target = .reg8 p ∧ source = .reg8 q
  · obtain ⟨p, q, rfl, rfl⟩ := registers
    cases p <;> cases q <;> rfl
  have plain : ∀ p q, target = .reg8 p → source ≠ .reg8 q :=
    fun p q ht hs => registers ⟨p, q, ht, hs⟩
  have plain' : ∀ p q, target.map f = .reg8 p → source.map f ≠ .reg8 q := by
    intro p q ht hs
    cases target with
    | reg8 register => cases source with
      | reg8 other => exact plain _ _ rfl rfl
      | _ => cases hs
    | _ => cases ht
  have other (offsets : List Field) := loadOther_map (f := f) offsets target source
  rw [load_places plain, load_places plain', Place.ofMode?_map zero, Place.ofMode?_map zero]
  cases Place.ofMode? target with
  | none =>
      cases Place.ofMode? source with
      | none => exact other []
      | some s => exact other s.offset
  | some d =>
      cases Place.ofMode? source with
      | none =>
          cases source with
          | immediate e => simp [Mode.map, Place.map, Field.map]
          | _ => exact other d.offset
      | some s =>
          simp only [Option.map_some, Place.map]
          split <;> simp [Field.map]

theorem stack_map (base : Nat) (mode : Mode) :
    stack base (mode.map f) = (stack base mode).map f := by
  cases mode with
  | reg16 p => cases p <;> simp [Mode.map, stack, Pair.stackCode?]
  | _ => rfl

theorem exchange_map (first second : Mode) :
    exchange (first.map f) (second.map f) = (exchange first second).map f := by
  cases first with
  | reg16 p => cases p <;> cases second with
    | reg16 q => cases q <;> simp [Mode.map, exchange]
    | _ => simp [Mode.map, exchange]
  | indirect p =>
      cases p with
      | sp =>
          have same : (second.map f).pair? = second.pair? := Mode.pair?_map second
          show exchange (.indirect .sp) (second.map f) = _
          simp only [exchange, same]
          split <;> simp
      | _ => simp [Mode.map, exchange]
  | _ => simp [Mode.map, exchange]

theorem accumulator_map (zero : f Mode.zeroOffset = Mode.zeroOffset) (op : Alu) (source : Mode) :
    accumulator op (source.map f) = (accumulator op source).map f := by
  unfold accumulator
  rw [Place.ofMode?_map zero]
  cases Place.ofMode? source with
  | some place => exact map_place place _
  | none => cases source <;> simp [Mode.map]

theorem pairs_map (op : Alu) (p q : Pair) : (pairs op p q).map f = pairs op p q := by
  unfold pairs
  split
  · split <;> simp
  · dsimp only
    split <;> simp
  · rfl

theorem arithmetic_map (zero : f Mode.zeroOffset = Mode.zeroOffset) (op : Alu)
    (modes : List Mode) : arithmetic op (modes.map (Mode.map f)) = (arithmetic op modes).map f := by
  match modes with
  | [] => rfl
  | [source] => exact accumulator_map zero op source
  | [first, second] =>
      cases first with
      | reg16 p =>
          cases second with
          | reg16 q => exact (pairs_map op p q).symm
          | _ => rfl
      | reg8 register =>
          cases register with
          | a =>
              have same := accumulator_map zero op second
              cases second <;> exact same
          | _ => cases second <;> rfl
      | _ => cases second <;> rfl
  | first :: second :: third :: rest => cases first <;> simp [Mode.map, arithmetic]

theorem count_map (zero : f Mode.zeroOffset = Mode.zeroOffset) (byteOpcode pairOpcode : Nat)
    (mode : Mode) :
    count byteOpcode pairOpcode (mode.map f) = (count byteOpcode pairOpcode mode).map f := by
  unfold count
  rw [Place.ofMode?_map zero]
  cases Place.ofMode? mode with
  | some place => exact map_place place _
  | none =>
      cases mode with
      | reg16 p => cases p <;> simp [Mode.map, Pair.code?]
      | _ => rfl

theorem shift_map (zero : f Mode.zeroOffset = Mode.zeroOffset) (op : Shift) (mode : Mode) :
    shift op (mode.map f) = (shift op mode).map f := by
  unfold shift
  rw [Place.ofMode?_map zero]
  cases Place.ofMode? mode with
  | some place => simp [Place.map, Place.bitGroup, Field.map]
  | none => rfl

theorem bit_map (zero : f Mode.zeroOffset = Mode.zeroOffset) (action : BitAction)
    (number mode : Mode) :
    bit action (number.map f) (mode.map f) = (bit action number mode).map f := by
  cases number with
  | immediate e =>
      show bit action (.immediate (f e)) (mode.map f) = _
      simp only [bit]
      rw [Place.ofMode?_map zero]
      cases Place.ofMode? mode with
      | some place => simp [Form.map, Place.map, Place.bitGroup, Field.map]
      | none => rfl
  | _ => rfl

theorem jump_map (condition : Option Condition) (target : Mode) :
    jump condition (target.map f) = (jump condition target).map f := by
  cases condition <;> cases target with
  | indirect p => cases p <;> simp [Mode.map, jump]
  | indexed x offset => cases offset <;> simp [Mode.map, jump]
  | _ => simp [Mode.map, jump]

theorem jumpRelative_map (condition : Option Condition) (target : Mode) :
    jumpRelative condition (target.map f) = (jumpRelative condition target).map f := by
  cases condition <;> cases target <;> simp [Mode.map, jumpRelative, Field.map]
  split <;> simp [Field.map]

theorem call_map (condition : Option Condition) (target : Mode) :
    call condition (target.map f) = (call condition target).map f := by
  cases condition <;> cases target <;> simp [Mode.map, call]

theorem ret_map (condition : Option Condition) : (ret condition).map f = ret condition := by
  cases condition <;> simp [ret]

theorem input_map (target port : Mode) :
    input (target.map f) (port.map f) = (input target port).map f := by
  cases target with
  | reg8 register => cases register <;> cases port with
    | indirect p => cases p <;> simp [Mode.map, input, Reg8.code?]
    | _ => simp [Mode.map, input]
  | _ => rfl

theorem output_map (port source : Mode) :
    output (port.map f) (source.map f) = (output port source).map f := by
  cases port with
  | absolute e =>
      cases source with
      | reg8 register => cases register <;> simp [Mode.map, output]
      | _ => rfl
  | indirect p => cases p <;> cases source with
    | reg8 register => cases register <;> simp [Mode.map, output, Reg8.code?]
    | _ => rfl
  | _ => rfl

/-- The form of rewritten operands is the rewritten form. -/
theorem ofParts_map (zero : f Mode.zeroOffset = Mode.zeroOffset)
    (empty : f (Expr.ofString "") = Expr.ofString "") (m : Mnemonic)
    (condition : Option Condition) (modes : List Mode) :
    ofParts m condition (modes.map (Mode.map f)) = (ofParts m condition modes).map f := by
  match modes with
  | [] =>
      cases m with
      | rotate op => cases op <;> rfl
      | ret => exact (ret_map condition).symm
      | alu op => rfl
      | _ => rfl
  | [mode] =>
      cases m with
      | rotate op => cases op <;> rfl
      | push => exact stack_map _ mode
      | pop => exact stack_map _ mode
      | alu op => exact arithmetic_map zero op [mode]
      | inc => exact count_map zero _ _ mode
      | dec => exact count_map zero _ _ mode
      | shift op => exact shift_map zero op mode
      | jp => exact jump_map condition mode
      | jr => exact jumpRelative_map condition mode
      | call => exact call_map condition mode
      | djnz | rst => cases mode <;> rfl
      | im => cases mode with
        | immediate e | absolute e => rfl
        | indexed x offset =>
            cases offset <;> simp [ofParts, implied?, Mode.map, Mode.expr?, Field.map, zero]
        | _ => simp [ofParts, implied?, Mode.map, Mode.expr?, Field.map, empty]
      | _ => rfl
  | [first, second] =>
      cases m with
      | rotate op => cases op <;> rfl
      | ld => exact load_map zero first second
      | ex => exact exchange_map first second
      | alu op => exact arithmetic_map zero op [first, second]
      | bit action => exact bit_map zero action first second
      | input => exact input_map first second
      | output => exact output_map first second
      | djnz | rst => cases first <;> rfl
      | _ => rfl
  | first :: second :: third :: rest =>
      cases m with
      | rotate op => cases op <;> rfl
      | alu op => exact arithmetic_map zero op (first :: second :: third :: rest)
      | djnz | rst => cases first <;> rfl
      | _ => rfl

end Form

/-! ## values -/

/-- The new expressions have the values of the old ones. -/
def KeepsValues (f : Expr → Expr) : Prop := ∀ e scope, (f e).value? scope = e.value? scope

variable {ctx : Context}

theorem Context.toOption_value_map (keeps : KeepsValues f) (e : Expr) :
    (ctx.value (f e)).toOption = (ctx.value e).toOption := by
  unfold value
  rw [keeps]
  split
  · rfl
  · split <;> rfl

namespace Field

theorem toOption_fillRelative_map (keeps : KeepsValues f) (target : Expr) :
    (fillRelative ctx (f target)).toOption = (fillRelative ctx target).toOption := by
  unfold fillRelative
  rw [keeps]
  split
  · split <;> rfl
  · rfl
  · dsimp only
    split <;> rfl

theorem toOption_fill_map (keeps : KeepsValues f) (field : Field) :
    ((field.map f).fill ctx).toOption = (field.fill ctx).toOption := by
  cases field with
  | opcode n => rfl
  | byte e | word e =>
      simp only [Field.map, fill, toOption_map, Context.toOption_value_map keeps]
  | offset e | bit base e | restart e | interruptMode e =>
      simp only [Field.map, fill, toOption_bind, Context.toOption_value_map keeps]
  | relative e => exact toOption_fillRelative_map keeps e

theorem toOption_fillAll_map (keeps : KeepsValues f) (fields : List Field) :
    (fillAll ctx (fields.map (Field.map f))).toOption = (fillAll ctx fields).toOption := by
  induction fields with
  | nil => rfl
  | cons field rest ih =>
      simp only [List.map_cons, fillAll, toOption_bind, toOption_fill_map keeps, ih]

end Field

/-! ## instructions -/

/-- The second instruction is the first one with the expressions of its operands replaced. -/
structure Instruction.Rewrites (f : Expr → Expr) (i j : Instruction) : Prop where
  operation : j.operation = i.operation
  condition : j.condition = i.condition
  modes : j.operands.map (·.mode) = i.operands.map (·.mode.map f)

namespace Instruction.Rewrites

variable {i j : Instruction}

theorem form (h : Rewrites f i j) (zero : f Mode.zeroOffset = Mode.zeroOffset)
    (empty : f (Expr.ofString "") = Expr.ofString "") : j.form = i.form.map f := by
  have modes : j.operands.map (·.mode) = (i.operands.map (·.mode)).map (Mode.map f) := by
    rw [h.modes, List.map_map]
    rfl
  unfold Instruction.form
  rw [h.operation, h.condition, modes]
  split
  · exact Form.ofParts_map zero empty _ _ _
  · rfl

/-- The code is the same if the new expressions have the values of the old ones. -/
theorem encode (h : Rewrites f i j) (keeps : KeepsValues f)
    (zero : f Mode.zeroOffset = Mode.zeroOffset) (empty : f (Expr.ofString "") = Expr.ofString "") :
    (j.encode ctx).toOption = (i.encode ctx).toOption := by
  simp only [Instruction.encode, toOption_bind, h.form zero empty, Form.map,
    Field.toOption_fillAll_map keeps]
  cases i.form.code? with
  | none => rfl
  | some fields => simp only [Option.map_some, Field.toOption_fillAll_map keeps]

theorem shapes (h : Rewrites f i j) : j.shapes = i.shapes := by
  obtain ⟨operation, condition, xs, text⟩ := i
  obtain ⟨operation', condition', ys, text'⟩ := j
  obtain ⟨rfl, -, modes⟩ := h
  have modes : ys.map (·.mode) = xs.map (·.mode.map f) := modes
  have all : ys.map (·.mode.shape) = xs.map (·.mode.shape) := by
    have shapes := congrArg (List.map Mode.shape) modes
    simpa only [List.map_map, Function.comp_def, Mode.shape_map] using shapes
  cases operation' with
  | mnemonic m =>
      cases m with
      | alu op =>
          simp only [Instruction.shapes, all]
          -- the accumulator is named by the first operands of both, or by that of neither
          rcases xs with _ | ⟨⟨_, mode⟩, _ | ⟨x, _ | ⟨_, _⟩⟩⟩ <;>
            rcases ys with _ | ⟨⟨_, mode'⟩, _ | ⟨y, _ | ⟨_, _⟩⟩⟩ <;>
            simp only [List.map_cons, List.map_nil, List.cons.injEq, reduceCtorEq, and_false]
              at modes
          · rfl
          all_goals
            obtain ⟨rfl, -⟩ := modes
            cases mode with
            | reg8 register => cases register <;> rfl
            | _ => rfl
      | _ => exact all
  | _ => exact all

/-- Durations depend on the shapes of the operands only. -/
theorem cycles (h : Rewrites f i j) : j.cycles = i.cycles := by
  simp only [Instruction.cycles, h.operation, h.condition, h.shapes]

end Instruction.Rewrites

end Z80Workbench
