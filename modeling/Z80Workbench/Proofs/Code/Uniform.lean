import Z80Workbench.Proofs.Code.Failure

/-!
# Z80Workbench.Proofs.Code.Uniform

What the code of an instruction owes to its surroundings.  Symbols, the fallback and the address
decide the values that are filled in, but neither how long the code is nor which combinations of
operands are supported; and what is filled for real is filled leniently in the same way.
-/

namespace Z80Workbench

/-! ## lenient filling -/

/-- The same surroundings, where a name without a value counts as zero. -/
def Context.eased (ctx : Context) : Context := { ctx with lenient := true }

variable {ctx ctx' : Context} {bytes bytes' : List Nat}

theorem Context.value_eased {e : Expr} {n : Nat} (h : ctx.value e = .ok n) :
    ctx.eased.value e = .ok n := by
  by_cases lenient : ctx.lenient = true
  · simp_all [value, eased]
  · cases hv : e.value? ctx.scope <;> simp_all [value, eased]

namespace Field

theorem fillRelative_eased {target : Expr} (h : fillRelative ctx target = .ok bytes) :
    fillRelative ctx.eased target = .ok bytes := by
  by_cases lenient : ctx.lenient = true
  · simp_all [fillRelative, Context.eased]
  · cases hv : target.value? ctx.scope <;> cases ha : ctx.address <;>
      simp_all [fillRelative, Context.eased]

/-- A field that is filled for real is filled leniently with the same bytes. -/
theorem fill_eased {field : Field} (h : field.fill ctx = .ok bytes) :
    field.fill ctx.eased = .ok bytes := by
  cases field with
  | opcode n => exact h
  | byte e | word e =>
      obtain ⟨n, hn, hb⟩ := map_eq_ok.mp h
      exact map_eq_ok.mpr ⟨n, Context.value_eased hn, hb⟩
  | offset e | bit base e | restart e | interruptMode e =>
      obtain ⟨n, hn, hb⟩ := bind_eq_ok.mp h
      exact bind_eq_ok.mpr ⟨n, Context.value_eased hn, hb⟩
  | relative e => exact fillRelative_eased h

theorem fillAll_eased {fields : List Field} (h : fillAll ctx fields = .ok bytes) :
    fillAll ctx.eased fields = .ok bytes := by
  induction fields generalizing bytes with
  | nil => exact h
  | cons field rest ih =>
      obtain ⟨front, hf, h⟩ := bind_eq_ok.mp h
      obtain ⟨back, hb, h⟩ := bind_eq_ok.mp h
      exact bind_eq_ok.mpr ⟨front, fill_eased hf, bind_eq_ok.mpr ⟨back, ih hb, h⟩⟩

/-- A row can be filled if each of its fields can. -/
theorem exists_fillAll {fields : List Field}
    (h : ∀ field ∈ fields, ∃ bytes, field.fill ctx = .ok bytes) :
    ∃ bytes, fillAll ctx fields = .ok bytes := by
  cases hf : fillAll ctx fields with
  | ok bytes => exact ⟨bytes, rfl⟩
  | error c =>
      obtain ⟨field, hm, he⟩ := exists_of_fillAll hf
      obtain ⟨bytes, ho⟩ := h field hm
      rw [ho] at he
      contradiction

end Field

/-! ## settled operands -/

/-- The expression has a value, and the value passes a test. -/
def Context.passes (ctx : Context) (e : Expr) (test : Nat → Bool) : Bool :=
  match ctx.value e with
  | .ok n => test n
  | .error _ => false

theorem Context.passes_iff {e : Expr} {test : Nat → Bool} :
    ctx.passes e test = true ↔ ∃ n, ctx.value e = .ok n ∧ test n = true := by
  cases hv : ctx.value e <;> simp [passes, hv]

/-- The operand has a value if it takes one, and as an offset the value fits a byte. -/
def Mode.isSettled (ctx : Context) : Mode → Bool
  | immediate e | absolute e => ctx.passes e fun _ => true
  | indexed _ offset => ctx.passes (offset.getD zeroOffset) fun n => Field.fitsByte (signed 16 n)
  | _ => true

/-- No operand is unresolved, no offset of an index register is out of range, and neither is the
number of a bit. -/
def Instruction.isSettled (ctx : Context) (i : Instruction) : Bool :=
  i.operands.all (·.mode.isSettled ctx) &&
    match i.operation, i.operands.map Operand.mode with
    | .mnemonic (.bit _), .immediate number :: _ => ctx.passes number fun n => n < 8
    | _, _ => true

/-- The offset of a settled operand can be filled. -/
theorem Mode.exists_fill {mode : Mode} {place : Place} (h : mode.isSettled ctx = true)
    (hp : Place.ofMode? mode = some place) :
    ∀ field ∈ place.offset, ∃ bytes, field.fill ctx = .ok bytes := by
  unfold Place.ofMode? at hp
  split at hp
  case h_1 =>
      obtain ⟨bits, -, rfl⟩ := Option.map_eq_some_iff.mp hp
      simp
  case h_2 => cases hp; simp
  case h_3 =>
      cases hp
      obtain ⟨n, hn, fits⟩ := Context.passes_iff.mp h
      simp [Field.fill, hn, fits, bind_eq_ok]
  case h_4 => contradiction

/-! ## combinations that are refused -/

namespace Form

/-- If the combination is refused, then not before all that is read has been filled. -/
def Passes (ctx : Context) (form : Form) : Prop :=
  form.code? = none → ∀ field ∈ form.reads, ∃ bytes, field.fill ctx = .ok bytes

@[simp] theorem passes_code {fields : List Field} : (code fields).Passes ctx := nofun

@[simp] theorem passes_fixed {bytes : List Nat} : (fixed bytes).Passes ctx := nofun

@[simp] theorem passes_withByte {bytes : List Nat} {e : Expr} :
    (withByte bytes e).Passes ctx := nofun

@[simp] theorem passes_withWord {bytes : List Nat} {e : Expr} :
    (withWord bytes e).Passes ctx := nofun

@[simp] theorem passes_refused {reads : List Field} :
    (refused reads).Passes ctx ↔ ∀ field ∈ reads, ∃ bytes, field.fill ctx = .ok bytes := by
  simp [Passes, refused]

@[simp] theorem passes_unsupported : unsupported.Passes ctx := by
  simp [unsupported]

/- Loads and operations on bits are the only groups that read something before they refuse. -/

theorem passes_loadPair {p : Pair} {source : Mode} : (loadPair p source).Passes ctx := by
  unfold loadPair
  split
  case h_6 | h_7 => split <;> simp
  all_goals simp

theorem passes_storePair {address : Expr} {p : Pair} : (storePair address p).Passes ctx := by
  unfold storePair
  split
  case h_3 => split <;> simp
  all_goals simp

theorem passes_loadOther {offsets : List Field} {target source : Mode}
    (h : ∀ field ∈ offsets, ∃ bytes, field.fill ctx = .ok bytes) :
    (loadOther offsets target source).Passes ctx := by
  unfold loadOther
  split
  case h_7 => exact passes_storePair
  case h_8 =>
      split
      · exact passes_loadPair
      · exact passes_refused.mpr h
  case h_9 => exact passes_refused.mpr h
  all_goals simp

theorem passes_load {target source : Mode} (ht : target.isSettled ctx = true)
    (hs : source.isSettled ctx = true) : (load target source).Passes ctx := by
  unfold load
  split
  case h_1 | h_2 | h_3 | h_4 => simp
  cases hd : Place.ofMode? target with
  | none =>
      cases hp : Place.ofMode? source with
      | none => exact passes_loadOther nofun
      | some s => exact passes_loadOther (Mode.exists_fill hs hp)
  | some d =>
      cases hp : Place.ofMode? source with
      | none =>
          cases source with
          | immediate e => exact passes_code
          | _ => exact passes_loadOther (Mode.exists_fill ht hd)
      | some s =>
          simp only
          split
          · rw [passes_refused]
            intro field hm
            obtain ht' | hs' := List.mem_append.mp hm
            · exact Mode.exists_fill ht hd field ht'
            · exact Mode.exists_fill hs hp field hs'
          · exact passes_code

theorem passes_bit {action : BitAction} {number mode : Mode}
    (h : ∀ e, number = .immediate e → ctx.passes e (fun n => n < 8) = true) :
    (bit action number mode).Passes ctx := by
  unfold bit
  split
  case h_1 e =>
      split
      case h_1 => exact nofun
      case h_2 =>
          obtain ⟨n, hn, small⟩ := Context.passes_iff.mp (h e rfl)
          simp only [decide_eq_true_eq] at small
          simp [Field.fill, hn, small, bind_eq_ok]
  case h_2 => simp

theorem passes_stack {base : Nat} {mode : Mode} : (stack base mode).Passes ctx := by
  unfold stack
  split
  case h_2 => split <;> simp
  all_goals simp

theorem passes_exchange {first second : Mode} : (exchange first second).Passes ctx := by
  unfold exchange
  split
  case h_4 => split <;> simp
  all_goals simp

theorem passes_accumulator {op : Alu} {source : Mode} : (accumulator op source).Passes ctx := by
  unfold accumulator
  split <;> simp [Place.form]

theorem passes_pairs {op : Alu} {p q : Pair} : (pairs op p q).Passes ctx := by
  unfold pairs
  split
  case h_1 => split <;> simp
  case h_2 => dsimp only; split <;> simp
  case h_3 => simp

theorem passes_arithmetic {op : Alu} {modes : List Mode} : (arithmetic op modes).Passes ctx := by
  unfold arithmetic
  split
  case h_1 | h_3 => exact passes_accumulator
  case h_2 => exact passes_pairs
  case h_4 => simp

theorem passes_count {byteOpcode pairOpcode : Nat} {mode : Mode} :
    (count byteOpcode pairOpcode mode).Passes ctx := by
  unfold count
  split
  case h_3 => split <;> simp
  all_goals simp [Place.form]

theorem passes_shift {op : Shift} {mode : Mode} : (shift op mode).Passes ctx := by
  unfold shift
  split <;> simp

theorem passes_jump {condition : Option Condition} {target : Mode} :
    (jump condition target).Passes ctx := by
  unfold jump
  split <;> simp

theorem passes_jumpRelative {condition : Option Condition} {target : Mode} :
    (jumpRelative condition target).Passes ctx := by
  unfold jumpRelative
  split
  case h_2 => split <;> simp
  all_goals simp

theorem passes_call {condition : Option Condition} {target : Mode} :
    (call condition target).Passes ctx := by
  unfold call
  split <;> simp

theorem passes_ret {condition : Option Condition} : (ret condition).Passes ctx := by
  unfold ret
  split <;> simp

theorem passes_input {target port : Mode} : (input target port).Passes ctx := by
  unfold input
  split
  case h_2 => split <;> simp
  all_goals simp

theorem passes_output {port source : Mode} : (output port source).Passes ctx := by
  unfold output
  split
  case h_2 => split <;> simp
  all_goals simp

/-- With settled operands, only the combination itself can be a reason to refuse it. -/
theorem passes_ofParts {m : Mnemonic} {condition : Option Condition} {modes : List Mode}
    (settled : ∀ mode ∈ modes, mode.isSettled ctx = true)
    (number : ∀ action e rest, m = .bit action → modes = .immediate e :: rest →
      ctx.passes e (fun n => n < 8) = true) :
    (ofParts m condition modes).Passes ctx := by
  unfold ofParts
  split
  case h_2 => exact passes_load (settled _ (by simp)) (settled _ (by simp))
  case h_3 | h_4 => exact passes_stack
  case h_5 => exact passes_exchange
  case h_6 => exact passes_arithmetic
  case h_7 | h_8 => exact passes_count
  case h_9 => exact passes_shift
  case h_10 => exact passes_bit fun e he => number _ e _ rfl (by rw [he])
  case h_11 => exact passes_jump
  case h_12 => exact passes_jumpRelative
  case h_14 => exact passes_call
  case h_15 => exact passes_ret
  case h_18 => exact passes_input
  case h_19 => exact passes_output
  all_goals simp

end Form

/-! ## code of an instruction -/

namespace Instruction

variable {i : Instruction}

/-- Code is as long as its fields are wide, whatever fills them. -/
theorem length_encode_eq (h : i.encode ctx = .ok bytes) (h' : i.encode ctx' = .ok bytes') :
    bytes.length = bytes'.length := by
  obtain ⟨_, fields, _, hc, hb⟩ := encode_eq_ok.mp h
  obtain ⟨_, fields', _, hc', hb'⟩ := encode_eq_ok.mp h'
  have same : fields = fields' := Option.some.inj (hc.symm.trans hc')
  rw [Field.length_fillAll hb, Field.length_fillAll hb', same]

/-- An instruction that is encoded for real is encoded leniently as the same code. -/
theorem encode_eased (h : i.encode ctx = .ok bytes) : i.encode ctx.eased = .ok bytes := by
  obtain ⟨read, fields, hr, hc, hb⟩ := encode_eq_ok.mp h
  exact encode_eq_ok.mpr ⟨read, fields, Field.fillAll_eased hr, hc, Field.fillAll_eased hb⟩

/-- An instruction with settled operands that is not supported is refused for its operands. -/
theorem encode_of_settled (settled : i.isSettled ctx = true) (none : i.form.code? = none) :
    i.encode ctx = .error (.unsupportedOperands i.word i.text) := by
  simp only [isSettled, Bool.and_eq_true, List.all_eq_true] at settled
  obtain ⟨operands, number⟩ := settled
  have passes : i.form.Passes ctx := by
    unfold form
    cases ho : i.operation with
    | mnemonic m =>
        refine Form.passes_ofParts (fun mode hm => ?_) fun action e rest hm hmodes => ?_
        · obtain ⟨operand, hop, rfl⟩ := List.mem_map.mp hm
          exact operands operand hop
        · simpa [ho, hm, hmodes] using number
    | _ => exact Form.passes_unsupported
  obtain ⟨read, hr⟩ := Field.exists_fillAll (passes none)
  rw [encode, hr, none]
  rfl

end Instruction

/-- The length of code, and whether there is any, is a matter of spelling.  Whatever the symbols,
the fallbacks and the addresses are, and whether filling is lenient or not: all code of an
instruction is of one length, what is encoded for real is encoded leniently as the same code, and
an instruction whose operands are refused as not supported is never encoded, and is refused for the
same reason wherever its operands are settled. -/
theorem encode_uniform (i : Instruction) (ctx ctx' : Context) :
    (∀ bytes bytes', i.encode ctx = .ok bytes → i.encode ctx' = .ok bytes' →
      bytes.length = bytes'.length) ∧
    (∀ bytes, ctx.lenient = false → i.encode ctx = .ok bytes →
      i.encode { ctx with lenient := true } = .ok bytes) ∧
    ∀ c, i.encode ctx = .error c → c.family = .addressingMode →
      (∀ bytes, i.encode ctx' ≠ .ok bytes) ∧
        (i.isSettled ctx' = true → i.encode ctx' = .error c) := by
  constructor
  · exact fun _ _ => Instruction.length_encode_eq
  constructor
  · exact fun _ _ => Instruction.encode_eased
  · intro c h family
    obtain ⟨none, rfl⟩ := Instruction.refused_of_encode h family
    constructor
    · intro bytes hb
      obtain ⟨_, _, _, hc, _⟩ := Instruction.encode_eq_ok.mp hb
      rw [none] at hc
      contradiction
    · exact fun settled => Instruction.encode_of_settled settled none

/-- A bit beside an index register, its number from the symbols and from the fallback, and a move
between the memory beside two index registers. -/
theorem encode_uniform_index :
    ∃ (far near : Context) (set move : Instruction),
      set = Instruction.parse "SET" "N,(IX-1)" ∧ move = Instruction.parse "LD" "(IX+N),(IY+1)" ∧
      (∃ bytes bytes', set.encode near = .ok bytes ∧ near.lenient = false ∧
        set.encode { near with lenient := true } = .ok bytes ∧ far.lenient = true ∧
        set.encode far = .ok bytes' ∧ bytes ≠ bytes' ∧ bytes.length = bytes'.length) ∧
      ∃ c, move.encode near = .error c ∧ c.family = .addressingMode ∧
        move.isSettled far = true ∧ move.encode far = .error c := by
  let near : Context := ⟨{ symbols := .ofList [("N", 7)] }, some 0x4000, false⟩
  let far : Context :=
    ⟨{ symbols := ∅, fallback := fun name => if name = "N" then some 3 else none }, none, true⟩
  let set := Instruction.parse "SET" "N,(IX-1)"
  let move := Instruction.parse "LD" "(IX+N),(IY+1)"
  have code : set.encode near = .ok [0xDD, 0xCB, 0xFF, 0xFE] := by decide +kernel
  have code' : set.encode far = .ok [0xDD, 0xCB, 0xFF, 0xDE] := by decide +kernel
  have refused : move.encode near = .error (.unsupportedOperands "LD" "(IX+N),(IY+1)") := by
    decide +kernel
  have settled : move.isSettled far = true := by decide +kernel
  refine ⟨far, near, set, move, rfl, rfl, ⟨_, _, code, rfl, ?_, rfl, code', by decide, ?_⟩,
    _, refused, rfl, settled, ?_⟩
  · exact (encode_uniform set near far).2.1 _ rfl code
  · exact (encode_uniform set near far).1 _ _ code code'
  · exact ((encode_uniform move near far).2.2 _ refused rfl).2 settled

end Z80Workbench
