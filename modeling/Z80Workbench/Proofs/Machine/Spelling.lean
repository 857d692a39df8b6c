import Z80Workbench.Machine.Execute

/-!
# Z80Workbench.Proofs.Machine.Spelling

The spelling of an operand.  Execution looks at the values of expressions only: two instructions
whose operands differ in the spelling of an expression do the same.
-/

namespace Z80Workbench

/-- The modes differ in the spelling of an expression at most, not in its value. -/
inductive Mode.Alike (scope : Expr.Scope) : Mode → Mode → Prop
  | refl (mode : Mode) : Alike scope mode mode
  | immediate {e f : Expr} (h : e.value? scope = f.value? scope) :
      Alike scope (.immediate e) (.immediate f)
  | absolute {e f : Expr} (h : e.value? scope = f.value? scope) :
      Alike scope (.absolute e) (.absolute f)
  | indexed {x : Index} {o p : Option Expr}
      (h : (o.getD zeroOffset).value? scope = (p.getD zeroOffset).value? scope) :
      Alike scope (.indexed x o) (.indexed x p)

namespace Machine

variable {env : Env} {mode mode' target target' source source' : Mode}

/-! ## operands -/

theorem value?_expr_alike (h : mode.Alike env.scope mode') :
    mode.expr?.bind env.value? = mode'.expr?.bind env.value? := by
  cases h with
  | refl => rfl
  | immediate h | absolute h | indexed h => exact h

theorem addressOf?_alike (h : mode.Alike env.scope mode') (m : Machine) :
    m.addressOf? env mode = m.addressOf? env mode' := by
  cases h with
  | refl | immediate h => rfl
  | absolute h => exact h
  | indexed h => simp only [addressOf?, Env.value?, h]

theorem byteOf?_alike (h : mode.Alike env.scope mode') (m : Machine) :
    m.byteOf? env mode = m.byteOf? env mode' := by
  have ha := addressOf?_alike h m
  cases h with
  | refl => rfl
  | immediate h => simp only [byteOf?, Env.value?, h]
  | absolute h | indexed h => simp only [byteOf?, ha]

theorem setByte?_alike (h : mode.Alike env.scope mode') (m : Machine) (value : Nat) :
    m.setByte? env mode value = m.setByte? env mode' value := by
  have ha := addressOf?_alike h m
  cases h with
  | refl => rfl
  | immediate h | absolute h | indexed h => simp only [setByte?, ha]

theorem wordOf?_alike (h : mode.Alike env.scope mode') (m : Machine) :
    m.wordOf? env mode = m.wordOf? env mode' := by
  cases h with
  | refl | indexed h => rfl
  | immediate h | absolute h => simp only [wordOf?, Env.value?, h]

/-! ## instructions -/

theorem loadMemory_alike (ht : target.Alike env.scope target') (hs : source.Alike env.scope source')
    (m : Machine) : m.loadMemory env target source = m.loadMemory env target' source' := by
  have hb := byteOf?_alike hs m
  unfold loadMemory
  rw [addressOf?_alike ht m]
  cases m.addressOf? env target' with
  | none => rfl
  | some address =>
      cases hs with
      | refl => rfl
      | immediate h | absolute h | indexed h => simp only [hb]

theorem load_alike (ht : target.Alike env.scope target') (hs : source.Alike env.scope source')
    (m : Machine) : m.load env target source = m.load env target' source' := by
  have hb := byteOf?_alike hs m
  have hw := wordOf?_alike hs m
  have hm := loadMemory_alike ht hs m
  cases ht with
  | immediate h => rfl
  | absolute h | indexed h => exact hm
  | refl =>
      cases target with
      | reg8 register =>
          cases hs with
          | refl => rfl
          | immediate h | absolute h | indexed h => cases register <;> simp only [load, hb]
      | reg16 p => simp only [load, hw]
      | immediate e => rfl
      | indirect p | indexed x offset | absolute e => exact hm

theorem accumulate_alike (h : mode.Alike env.scope mode') (m : Machine) (op : Alu) :
    m.accumulate env op mode = m.accumulate env op mode' := by
  simp only [accumulate, byteOf?_alike h m]

theorem count_alike (h : mode.Alike env.scope mode') (m : Machine) (down : Bool) :
    m.count env down mode = m.count env down mode' := by
  have hb := byteOf?_alike h m
  have hc : ∀ value, m.countByte env down mode value = m.countByte env down mode' value := by
    intro value
    simp only [countByte, setByte?_alike h m]
  cases h with
  | refl | immediate h => rfl
  | absolute h | indexed h => simp only [count, hb, hc]

theorem shift_alike (h : mode.Alike env.scope mode') (m : Machine) (op : Shift) :
    m.shift env op mode = m.shift env op mode' := by
  have hb := byteOf?_alike h m
  have hs := setByte?_alike h m
  cases h with
  | refl | immediate h => rfl
  | absolute h | indexed h => simp only [shift, hb, hs]

theorem changeBit_alike {number number' : Mode} (hn : number.Alike env.scope number')
    (h : mode.Alike env.scope mode') (m : Machine) (action : BitAction) :
    m.changeBit env action number mode = m.changeBit env action number' mode' := by
  simp only [changeBit, value?_expr_alike hn, byteOf?_alike h m, setByte?_alike h m]

theorem jump_alike (h : mode.Alike env.scope mode') (m : Machine) :
    m.jump env (some mode) = m.jump env (some mode') := by
  have hv := value?_expr_alike h
  cases h with
  | refl | indexed h => rfl
  | immediate h | absolute h => simp only [jump, hv]

theorem call_alike (h : mode.Alike env.scope mode') (m : Machine) (length : Nat) :
    m.call env length (some mode) = m.call env length (some mode') := by
  simp only [call, Option.bind_some, value?_expr_alike h]

theorem jumpIf_alike (h : mode.Alike env.scope mode') (m : Machine)
    (condition : Option Condition) :
    (if m.flags.allow condition then m.jump env (some mode) else m) =
      if m.flags.allow condition then m.jump env (some mode') else m := by
  rw [jump_alike h]

theorem callIf_alike (h : mode.Alike env.scope mode') (m : Machine) (length : Nat)
    (condition : Option Condition) :
    (if m.flags.allow condition then m.call env length (some mode) else m) =
      if m.flags.allow condition then m.call env length (some mode') else m := by
  rw [call_alike h]

/-! ## bytes

Where a byte is wanted, only the low byte of an expression matters. -/

theorem byteOf?_lowByte {e f : Expr} {n : Nat} (he : e.value? env.scope = some n)
    (hf : f.value? env.scope = some (lowByte n)) (m : Machine) :
    m.byteOf? env (.immediate f) = m.byteOf? env (.immediate e) := by
  simp [byteOf?, Env.value?, he, hf, lowByte]

theorem loadMemory_lowByte {e f : Expr} {n : Nat} (he : e.value? env.scope = some n)
    (hf : f.value? env.scope = some (lowByte n)) (m : Machine) :
    m.loadMemory env target (.immediate f) = m.loadMemory env target (.immediate e) := by
  unfold loadMemory
  cases m.addressOf? env target with
  | none => rfl
  | some address => simp only [byteOf?_lowByte he hf m]

theorem load_lowByte {e f : Expr} {n : Nat} (he : e.value? env.scope = some n)
    (hf : f.value? env.scope = some (lowByte n)) (ht : ∀ p, target ≠ .reg16 p) (m : Machine) :
    m.load env target (.immediate f) = m.load env target (.immediate e) := by
  have hb := byteOf?_lowByte he hf m
  cases target with
  | reg16 p => exact absurd rfl (ht p)
  | immediate e => rfl
  | reg8 register => cases register <;> simp only [load, hb]
  | indirect p | indexed x offset | absolute e => exact loadMemory_lowByte he hf m

theorem accumulate_lowByte {e f : Expr} {n : Nat} (he : e.value? env.scope = some n)
    (hf : f.value? env.scope = some (lowByte n)) (m : Machine) (op : Alu) :
    m.accumulate env op (.immediate f) = m.accumulate env op (.immediate e) := by
  simp only [accumulate, byteOf?_lowByte he hf m]

theorem input_lowByte {e f : Expr} {n : Nat} (he : e.value? env.scope = some n)
    (hf : f.value? env.scope = some (lowByte n)) (m : Machine) :
    m.input env target (.absolute f) = m.input env target (.absolute e) := by
  have hi : m.video.input? (lowByte n) = m.video.input? n := by
    simp [Video.input?, lowByte]
  cases target with
  | reg8 register => simp only [input, portOf?, Env.value?, he, hf, Option.bind_some, hi]
  | _ => rfl

theorem output_lowByte {e f : Expr} {n : Nat} (he : e.value? env.scope = some n)
    (hf : f.value? env.scope = some (lowByte n)) (m : Machine) :
    m.output env (.absolute f) source = m.output env (.absolute e) source := by
  have ho : ∀ value, m.video.output? (lowByte n) value = m.video.output? n value := by
    intro value
    simp [Video.output?, lowByte]
  simp only [output, portOf?, Env.value?, he, hf]
  cases m.byteOf? env source with
  | none => rfl
  | some value => simp only [ho]

end Machine

end Z80Workbench
