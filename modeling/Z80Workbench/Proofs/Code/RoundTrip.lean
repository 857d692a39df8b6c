import Z80Workbench.Proofs.Code.ReadBack

/-!
# Z80Workbench.Proofs.Code.RoundTrip

Encoding and reading back.  The code of an instruction reads back as a command that does the same,
one group of instructions after the other.  There is one exception: an exchange with the top of
the stack reads back as one of a pair, even if the instruction has the pair in parentheses.
-/

namespace Z80Workbench

variable {ctx : Context} {env : Machine.Env} {address : Nat} {condition : Option Condition}

namespace Form

/-! ## loads -/

theorem readsBack_loadPair {p : Pair} {source : Mode} :
    (loadPair p source).ReadsBack ctx env address ⟨.ld, condition, [.reg16 p, source]⟩ := by
  have immediate : ∀ {e f : Expr}, f.value? env.scope = e.value? env.scope → ∀ m,
      Command.run env m ⟨.ld, none, [.reg16 p, .immediate f]⟩ =
        Command.run env m ⟨.ld, condition, [.reg16 p, .immediate e]⟩ :=
    fun h m => congrArg Except.ok (Machine.load_alike (.refl _) (.immediate h) m)
  have absolute : ∀ {e f : Expr}, f.value? env.scope = e.value? env.scope → ∀ m,
      Command.run env m ⟨.ld, none, [.reg16 p, .absolute f]⟩ =
        Command.run env m ⟨.ld, condition, [.reg16 p, .absolute e]⟩ :=
    fun h m => congrArg Except.ok (Machine.load_alike (.refl _) (.absolute h) m)
  unfold loadPair
  split
  case h_1 x e =>
      exact readsBack_withWord (fun f => ⟨.ld, none, [.reg16 (.index x), .immediate f]⟩)
        (by cases x <;> exact fun _ _ _ => rfl) (fun _ => immediate)
  case h_2 x e =>
      exact readsBack_withWord (fun f => ⟨.ld, none, [.reg16 (.index x), .absolute f]⟩)
        (by cases x <;> exact fun _ _ _ => rfl) (fun _ => absolute)
  case h_3 e =>
      exact readsBack_withWord (fun f => ⟨.ld, none, [.reg16 .hl, .absolute f]⟩)
        (fun _ _ _ => rfl) (fun _ => absolute)
  case h_4 =>
      exact readsBack_fixed ⟨.ld, none, [.reg16 .sp, .reg16 .hl]⟩ (fun _ => rfl) (fun _ => rfl)
  case h_5 x =>
      exact readsBack_fixed ⟨.ld, none, [.reg16 .sp, .reg16 (.index x)]⟩
        (by cases x <;> exact fun _ => rfl) (fun _ => rfl)
  case h_6 e _ =>
      split
      case h_1 code hc =>
          exact readsBack_withWord (fun f => ⟨.ld, none, [.reg16 p, .immediate f]⟩)
            (by cases p <;> cases hc <;> exact fun _ _ _ => rfl) (fun _ => immediate)
      case h_2 => exact readsBack_unsupported
  case h_7 e _ ne =>
      split
      case h_1 code hc =>
          refine readsBack_withWord (fun f => ⟨.ld, none, [.reg16 p, .absolute f]⟩) ?_
            (fun _ => absolute)
          cases p with
          | hl => exact absurd rfl ne
          | bc | de | sp => cases hc; exact fun _ _ _ => rfl
          | _ => cases hc
      case h_2 => exact readsBack_unsupported
  case h_8 => exact readsBack_unsupported

theorem readsBack_storePair {e : Expr} {p : Pair} :
    (storePair e p).ReadsBack ctx env address ⟨.ld, condition, [.absolute e, .reg16 p]⟩ := by
  have absolute : ∀ f : Expr, f.value? env.scope = e.value? env.scope → ∀ m,
      Command.run env m ⟨.ld, none, [.absolute f, .reg16 p]⟩ =
        Command.run env m ⟨.ld, condition, [.absolute e, .reg16 p]⟩ :=
    fun _ h m => congrArg Except.ok (Machine.load_alike (.absolute h) (.refl _) m)
  unfold storePair
  split
  case h_1 =>
      exact readsBack_withWord (fun f => ⟨.ld, none, [.absolute f, .reg16 .hl]⟩)
        (fun _ _ _ => rfl) absolute
  case h_2 x =>
      exact readsBack_withWord (fun f => ⟨.ld, none, [.absolute f, .reg16 (.index x)]⟩)
        (by cases x <;> exact fun _ _ _ => rfl) absolute
  case h_3 ne _ =>
      split
      case h_1 code hc =>
          refine readsBack_withWord (fun f => ⟨.ld, none, [.absolute f, .reg16 p]⟩) ?_ absolute
          cases p with
          | hl => exact absurd rfl ne
          | bc | de | sp => cases hc; exact fun _ _ _ => rfl
          | _ => cases hc
      case h_2 => exact readsBack_unsupported

theorem readsBack_loadOther {offsets : List Field} {target source : Mode} :
    (loadOther offsets target source).ReadsBack ctx env address
      ⟨.ld, condition, [target, source]⟩ := by
  unfold loadOther
  split
  case h_1 =>
      exact readsBack_fixed ⟨.ld, none, [.reg8 .a, .indirect .bc]⟩ (fun _ => rfl) (fun _ => rfl)
  case h_2 =>
      exact readsBack_fixed ⟨.ld, none, [.reg8 .a, .indirect .de]⟩ (fun _ => rfl) (fun _ => rfl)
  case h_3 e =>
      exact readsBack_withWord (fun f => ⟨.ld, none, [.reg8 .a, .absolute f]⟩) (fun _ _ _ => rfl)
        (fun _ h m => congrArg Except.ok (Machine.load_alike (.refl _) (.absolute h) m))
  case h_4 =>
      exact readsBack_fixed ⟨.ld, none, [.indirect .bc, .reg8 .a]⟩ (fun _ => rfl) (fun _ => rfl)
  case h_5 =>
      exact readsBack_fixed ⟨.ld, none, [.indirect .de, .reg8 .a]⟩ (fun _ => rfl) (fun _ => rfl)
  case h_6 e =>
      exact readsBack_withWord (fun f => ⟨.ld, none, [.absolute f, .reg8 .a]⟩) (fun _ _ _ => rfl)
        (fun _ h m => congrArg Except.ok (Machine.load_alike (.absolute h) (.refl _) m))
  case h_7 => exact readsBack_storePair
  case h_8 =>
      split
      · exact readsBack_loadPair
      · exact readsBack_refused
  case h_9 => exact readsBack_refused

/-- Loads between two places, one of which is a register. -/
theorem readsBack_loadPlace {target source : Mode} {d s : Place}
    (hd : Place.ofMode? target = some d) (hs : Place.ofMode? source = some s)
    (ne : ¬(d.bits = 6 ∧ s.bits = 6)) :
    (Form.code (d.opening ++ s.opening ++ [.opcode (0x40 + 8 * d.bits + s.bits)] ++
      d.offset ++ s.offset)).ReadsBack ctx env address ⟨.ld, condition, [target, source]⟩ := by
  have hdb := Place.bits_lt hd
  have hsb := Place.bits_lt hs
  have plain : ∀ x?, Reader.command address x? (0x40 + 8 * d.bits + s.bits) =
      Reader.loads x? d.bits s.bits :=
    fun x? => Reader.command_eq_plain 1 hdb hsb (by omega) (by omega)
  have unprefixed : Index.ofOpcode? (0x40 + 8 * d.bits + s.bits) = none :=
    Index.ofOpcode?_eq_none (by omega) (by omega)
  obtain ⟨register, bits, hr, rfl, rfl⟩ | hd6 := Place.register_or_memory hd
  · dsimp only
    rw [List.append_nil, List.nil_append]
    refine readsBack_place (fun mode => ⟨.ld, none, [.reg8 register, mode]⟩) hs unprefixed ?_ ?_
    · intro x? bytes mode rest hread
      rw [plain]
      exact Reader.loads_eq ne (Reader.place_register hr x? bytes) hread
    · exact fun _ h m => congrArg Except.ok (Machine.load_alike (.refl _) h m)
  · obtain ⟨register, bits, hr, rfl, rfl⟩ | hs6 := Place.register_or_memory hs
    · rw [List.append_nil, List.append_nil]
      refine readsBack_place (fun mode => ⟨.ld, none, [mode, .reg8 register]⟩) hd unprefixed ?_ ?_
      · intro x? bytes mode rest hread
        rw [plain]
        exact Reader.loads_eq ne hread (Reader.place_register hr x? rest)
      · exact fun _ h m => congrArg Except.ok (Machine.load_alike h (.refl _) m)
    · exact absurd ⟨hd6, hs6⟩ ne

theorem readsBack_loadByte {target : Mode} {d : Place} {e : Expr}
    (hd : Place.ofMode? target = some d) :
    (Form.code (d.opening ++ [.opcode (0x06 + 8 * d.bits)] ++ d.offset ++ [.byte e])).ReadsBack
      ctx env address ⟨.ld, condition, [target, .immediate e]⟩ := by
  have hdb := Place.bits_lt hd
  refine readsBack_placeByte (fun mode f => ⟨.ld, none, [mode, .immediate f]⟩) hd
    (Index.ofOpcode?_eq_none (by omega) (by omega)) ?_ ?_
  · intro x? bytes mode b rest hread
    have plain : Reader.command address x? (0x06 + 8 * d.bits) =
        Reader.lower address x? d.bits 6 := by
      have shape : 0x06 + 8 * d.bits = 64 * 0 + 8 * d.bits + 6 := by omega
      rw [shape]
      exact Reader.command_eq_plain 0 hdb (by decide) (by omega) (by omega)
    rw [plain]
    exact Reader.bind_of_eq hread
  · intro mode f n halike he hf m
    have notPair : ∀ p, mode ≠ .reg16 p := by
      rintro p rfl
      cases halike
      cases hd
    calc Command.run env m ⟨.ld, none, [mode, .immediate f]⟩
      _ = .ok (m.load env mode (.immediate e)) :=
          congrArg Except.ok (Machine.load_lowByte he hf notPair m)
      _ = Command.run env m ⟨.ld, condition, [target, .immediate e]⟩ :=
          congrArg Except.ok (Machine.load_alike halike (.refl _) m)

theorem readsBack_load {target source : Mode} :
    (load target source).ReadsBack ctx env address ⟨.ld, condition, [target, source]⟩ := by
  unfold load
  split
  case h_1 =>
      exact readsBack_fixed ⟨.ld, none, [.reg8 .i, .reg8 .a]⟩ (fun _ => rfl) (fun _ => rfl)
  case h_2 =>
      exact readsBack_fixed ⟨.ld, none, [.reg8 .r, .reg8 .a]⟩ (fun _ => rfl) (fun _ => rfl)
  case h_3 =>
      exact readsBack_fixed ⟨.ld, none, [.reg8 .a, .reg8 .i]⟩ (fun _ => rfl) (fun _ => rfl)
  case h_4 =>
      exact readsBack_fixed ⟨.ld, none, [.reg8 .a, .reg8 .r]⟩ (fun _ => rfl) (fun _ => rfl)
  case h_5 =>
      cases hd : Place.ofMode? target with
      | none =>
          cases hs : Place.ofMode? source with
          | none => exact readsBack_loadOther
          | some s => exact readsBack_loadOther
      | some d =>
          cases hs : Place.ofMode? source with
          | none =>
              cases source with
              | immediate e => exact readsBack_loadByte hd
              | _ => exact readsBack_loadOther
          | some s =>
              simp only
              split
              case isTrue => exact readsBack_refused
              case isFalse ne => exact readsBack_loadPlace hd hs ne

/-! ## the stack and exchanges -/

theorem readsBack_stack {base : Nat} {mnemonic : Mnemonic} {mode : Mode}
    (hx : ∀ (x : Index) rest, Reader.decode address (x.opcode :: (base + 0x20) :: rest) =
      some (⟨mnemonic, none, [.reg16 (.index x)]⟩, rest))
    (hp : ∀ (p : Pair) code, p.stackCode? = some code → ∀ rest,
      Reader.decode address ((base + 16 * code) :: rest) =
        some (⟨mnemonic, none, [.reg16 p]⟩, rest))
    (hs : ∀ p m, Command.run env m ⟨mnemonic, none, [.reg16 p]⟩ =
      Command.run env m ⟨mnemonic, condition, [.reg16 p]⟩) :
    (stack base mode).ReadsBack ctx env address ⟨mnemonic, condition, [mode]⟩ := by
  unfold stack
  split
  case h_1 x => exact readsBack_fixed ⟨mnemonic, none, [.reg16 (.index x)]⟩ (hx x) (hs _)
  case h_2 p _ =>
      split
      case h_1 code hc => exact readsBack_fixed ⟨mnemonic, none, [.reg16 p]⟩ (hp p code hc) (hs p)
      case h_2 => exact readsBack_unsupported
  case h_3 => exact readsBack_unsupported

theorem readsBack_push {mode : Mode} :
    (stack 0xC5 mode).ReadsBack ctx env address ⟨.push, condition, [mode]⟩ :=
  readsBack_stack (fun x => by cases x <;> exact fun _ => rfl)
    (fun p _ hc => by cases p <;> cases hc <;> exact fun _ => rfl) (fun _ _ => rfl)

theorem readsBack_pop {mode : Mode} :
    (stack 0xC1 mode).ReadsBack ctx env address ⟨.pop, condition, [mode]⟩ :=
  readsBack_stack (fun x => by cases x <;> exact fun _ => rfl)
    (fun p _ hc => by cases p <;> cases hc <;> exact fun _ => rfl) (fun _ _ => rfl)

end Form

/-- The pair of an exchange with the top of the stack that has its pair in parentheses. -/
def Command.pointedPair? : Command → Option Pair
  | ⟨.ex, _, [.indirect .sp, .indirect .hl]⟩ => some .hl
  | ⟨.ex, _, [.indirect .sp, .indexed x _]⟩ => some (.index x)
  | _ => none

/-- The command that the code of a command stands for: the parentheses around the pair of an
exchange are lost. -/
def Command.straight (c : Command) : Command :=
  match c.pointedPair? with
  | some p => ⟨.ex, c.condition, [.indirect .sp, .reg16 p]⟩
  | none => c

theorem Command.straight_implied (m : Mnemonic) :
    Command.straight ⟨m, condition, []⟩ = ⟨m, condition, []⟩ := by
  cases m <;> rfl

namespace Form

theorem readsBack_exchange {first second : Mode} :
    (exchange first second).ReadsBack ctx env address
      (Command.straight ⟨.ex, condition, [first, second]⟩) := by
  unfold exchange
  split
  case h_1 =>
      exact readsBack_fixed ⟨.ex, none, [.reg16 .de, .reg16 .hl]⟩ (fun _ => rfl) (fun _ => rfl)
  case h_2 =>
      exact readsBack_fixed ⟨.ex, none, [.reg16 .de, .reg16 .hl]⟩ (fun _ => rfl) (fun _ => rfl)
  case h_3 =>
      exact readsBack_fixed ⟨.ex, none, [.reg16 .af, .reg16 .afShadow]⟩ (fun _ => rfl)
        (fun _ => rfl)
  case h_4 =>
      have straight : ∀ p, second.pair? = some p → p = .hl ∨ (∃ x, p = .index x) →
          Command.straight ⟨.ex, condition, [.indirect .sp, second]⟩ =
            ⟨.ex, condition, [.indirect .sp, .reg16 p]⟩ := by
        intro p hp hq
        cases second with
        | reg16 q => cases hp; rfl
        | indirect q =>
            cases q with
            | hl => cases hp; rfl
            | c => cases hp
            | _ => cases hp; simp at hq
        | indexed x offset => cases hp; rfl
        | _ => cases hp
      split
      case h_1 hp =>
          rw [straight .hl hp (.inl rfl)]
          exact readsBack_fixed ⟨.ex, none, [.indirect .sp, .reg16 .hl]⟩ (fun _ => rfl)
            (fun _ => rfl)
      case h_2 x hp =>
          rw [straight (.index x) hp (.inr ⟨x, rfl⟩)]
          exact readsBack_fixed ⟨.ex, none, [.indirect .sp, .reg16 (.index x)]⟩
            (by cases x <;> exact fun _ => rfl) (fun _ => rfl)
      case h_3 => exact readsBack_unsupported
  case h_5 => exact readsBack_unsupported

/-! ## arithmetic -/

theorem readsBack_accumulator {op : Alu} {modes : List Mode} {source : Mode}
    (hs : ∀ m : Machine, m.arithmetic env op modes = m.accumulate env op source) :
    (accumulator op source).ReadsBack ctx env address ⟨.alu op, condition, modes⟩ := by
  have performs : ∀ mode m, m.accumulate env op mode = m.accumulate env op source →
      Command.run env m ⟨.alu op, none, [mode]⟩ =
        Command.run env m ⟨.alu op, condition, modes⟩ := by
    intro mode m h
    have one : m.arithmetic env op [mode] = m.accumulate env op mode := by cases mode <;> rfl
    exact congrArg Except.ok (by rw [one, h, hs])
  have := op.code_lt
  unfold accumulator
  split
  case h_1 _ place hp =>
      have := Place.bits_lt hp
      refine readsBack_place (fun mode => ⟨.alu op, none, [mode]⟩) hp
        (Index.ofOpcode?_eq_none (by omega) (by omega)) ?_ ?_
      · intro x? bytes mode rest hread
        have plain : Reader.command address x? (0x80 + 8 * op.code + place.bits) =
            Reader.plain address x? op.code place.bits 2 :=
          Reader.command_eq_plain 2 op.code_lt (Place.bits_lt hp) (by omega) (by omega)
        rw [plain]
        exact (Reader.bind_of_eq (Reader.lift_of_eq op.getElem?_code)).trans
          (Reader.bind_of_eq hread)
      · exact fun mode h m => performs mode m (Machine.accumulate_alike h m op)
  case h_2 e =>
      refine readsBack_withByte (fun f => ⟨.alu op, none, [.immediate f]⟩)
        (by cases op <;> exact fun _ _ => rfl) ?_
      exact fun f n he hf m => performs _ m (Machine.accumulate_lowByte he hf m op)
  case h_3 => exact readsBack_unsupported

theorem readsBack_pairs {op : Alu} {p q : Pair} :
    (pairs op p q).ReadsBack ctx env address ⟨.alu op, condition, [.reg16 p, .reg16 q]⟩ := by
  unfold pairs
  split
  case h_1 =>
      split
      case h_1 code hc =>
          exact readsBack_fixed ⟨.alu .add, none, [.reg16 .hl, .reg16 q]⟩
            (by cases q <;> cases hc <;> exact fun _ => rfl) (fun _ => rfl)
      case h_2 code hc =>
          exact readsBack_fixed ⟨.alu .adc, none, [.reg16 .hl, .reg16 q]⟩
            (by cases q <;> cases hc <;> exact fun _ => rfl) (fun _ => rfl)
      case h_3 code hc =>
          exact readsBack_fixed ⟨.alu .sbc, none, [.reg16 .hl, .reg16 q]⟩
            (by cases q <;> cases hc <;> exact fun _ => rfl) (fun _ => rfl)
      case h_4 => exact readsBack_unsupported
  case h_2 x =>
      dsimp only
      split
      case h_1 code hc =>
          refine readsBack_fixed ⟨.alu .add, none, [.reg16 (.index x), .reg16 q]⟩ ?_ (fun _ => rfl)
          split at hc
          case isTrue hq => cases hc; subst hq; cases x <;> exact fun _ => rfl
          case isFalse =>
              split at hc
              case isTrue => cases hc
              case isFalse ne =>
                  cases q with
                  | hl => exact absurd rfl ne
                  | bc | de | sp => cases hc; cases x <;> exact fun _ => rfl
                  | _ => cases hc
      case h_2 => exact readsBack_unsupported
  case h_3 => exact readsBack_unsupported

theorem readsBack_arithmetic {op : Alu} {modes : List Mode} :
    (arithmetic op modes).ReadsBack ctx env address ⟨.alu op, condition, modes⟩ := by
  unfold arithmetic
  split
  case h_1 source => exact readsBack_accumulator fun m => by cases source <;> rfl
  case h_2 => exact readsBack_pairs
  case h_3 => exact readsBack_accumulator fun _ => rfl
  case h_4 => exact readsBack_unsupported

/-- Increments and decrements alike; `column` is the opcode for a byte in B. -/
theorem readsBack_count {column pairOpcode : Nat} {mnemonic : Mnemonic} {mode : Mode}
    (hc : column < 8)
    (hl : ∀ x? row, Reader.lower address x? row column =
      (do return ⟨mnemonic, none, [← Reader.place x? row]⟩))
    (hx : ∀ (x : Index) rest, Reader.decode address (x.opcode :: (pairOpcode + 0x20) :: rest) =
      some (⟨mnemonic, none, [.reg16 (.index x)]⟩, rest))
    (hp : ∀ (p : Pair) code, p.code? = some code → ∀ rest,
      Reader.decode address ((pairOpcode + 16 * code) :: rest) =
        some (⟨mnemonic, none, [.reg16 p]⟩, rest))
    (hs : ∀ mode' : Mode, mode'.Alike env.scope mode → ∀ m,
      Command.run env m ⟨mnemonic, none, [mode']⟩ =
        Command.run env m ⟨mnemonic, condition, [mode]⟩) :
    (count column pairOpcode mode).ReadsBack ctx env address ⟨mnemonic, condition, [mode]⟩ := by
  unfold count
  split
  case h_1 _ place h =>
      have bits := Place.bits_lt h
      refine readsBack_place (fun mode => ⟨mnemonic, none, [mode]⟩) h
        (Index.ofOpcode?_eq_none (by omega) (by omega)) ?_ hs
      intro x? bytes mode rest hread
      have shape : column + 8 * place.bits = 64 * 0 + 8 * place.bits + column := by omega
      have plain : Reader.command address x? (column + 8 * place.bits) =
          Reader.lower address x? place.bits column := by
        rw [shape]
        exact Reader.command_eq_plain 0 bits hc (by omega) (by omega)
      rw [plain, hl]
      exact Reader.bind_of_eq hread
  case h_2 x _ =>
      exact readsBack_fixed ⟨mnemonic, none, [.reg16 (.index x)]⟩ (hx x) (hs _ (.refl _))
  case h_3 p _ _ =>
      split
      case h_1 code hc =>
          exact readsBack_fixed ⟨mnemonic, none, [.reg16 p]⟩ (hp p code hc) (hs _ (.refl _))
      case h_2 => exact readsBack_unsupported
  case h_4 => exact readsBack_unsupported

theorem readsBack_inc {mode : Mode} :
    (count 0x04 0x03 mode).ReadsBack ctx env address ⟨.inc, condition, [mode]⟩ :=
  readsBack_count (by decide) (fun _ _ => rfl) (fun x => by cases x <;> exact fun _ => rfl)
    (fun p _ hc => by cases p <;> cases hc <;> exact fun _ => rfl)
    (fun _ h m => congrArg Except.ok (Machine.count_alike h m false))

theorem readsBack_dec {mode : Mode} :
    (count 0x05 0x0B mode).ReadsBack ctx env address ⟨.dec, condition, [mode]⟩ :=
  readsBack_count (by decide) (fun _ _ => rfl) (fun x => by cases x <;> exact fun _ => rfl)
    (fun p _ hc => by cases p <;> cases hc <;> exact fun _ => rfl)
    (fun _ h m => congrArg Except.ok (Machine.count_alike h m true))

/-! ## the bit group -/

theorem readsBack_shift {op : Shift} {mode : Mode} :
    (shift op mode).ReadsBack ctx env address ⟨.shift op, condition, [mode]⟩ := by
  unfold shift
  split
  case h_1 place h =>
      refine readsBack_bitGroup h ?_
      rintro _ ⟨⟩
      refine ⟨0, op.code, op.code_lt, by simp, fun mode => ⟨.shift op, none, [mode]⟩, ?_, ?_⟩
      · exact fun mode' rest => Reader.bind_of_eq (Reader.lift_of_eq op.getElem?_code)
      · exact fun _ mode' h m => congrArg Except.ok (Machine.shift_alike h m op)
  case h_2 => exact readsBack_unsupported

theorem readsBack_bit {action : BitAction} {number mode : Mode} :
    (bit action number mode).ReadsBack ctx env address
      ⟨.bit action, condition, [number, mode]⟩ := by
  unfold bit
  split
  case h_1 e =>
      split
      case h_1 place h =>
          refine readsBack_bitGroup h ?_
          intro b hb
          obtain ⟨n, hn, hb⟩ := bind_eq_ok.mp hb
          split at hb
          case isFalse => cases hb
          case isTrue lt =>
              cases hb
              obtain ⟨quadrant, hq, ha⟩ : ∃ quadrant, action.base = 64 * (quadrant + 1) ∧
                  BitAction.all[quadrant]? = some action := by
                cases action
                · exact ⟨0, rfl, rfl⟩
                · exact ⟨1, rfl, rfl⟩
                · exact ⟨2, rfl, rfl⟩
              refine ⟨quadrant + 1, n, lt, by rw [hq]; congr 1; omega,
                fun mode => ⟨.bit action, none, [.immediate (.ofNat n), mode]⟩, ?_, ?_⟩
              · exact fun mode' rest => Reader.bind_of_eq (Reader.lift_of_eq ha)
              · intro hm mode' halike m
                have hv : (Expr.ofNat n).value? env.scope = e.value? env.scope := by
                  rw [hm.value hn, Expr.value?_ofNat (by omega)]
                exact congrArg Except.ok
                  (Machine.changeBit_alike (.immediate hv) halike m action)
      case h_2 => exact readsBack_refused
  case h_2 => exact readsBack_unsupported

/-! ## control transfers -/

theorem readsBack_jump {target : Mode} :
    (jump condition target).ReadsBack ctx env address ⟨.jp, condition, [target]⟩ := by
  unfold jump
  split
  case h_1 =>
      exact readsBack_fixed ⟨.jp, none, [.indirect .hl]⟩ (fun _ => rfl) (fun _ => rfl)
  case h_2 x =>
      exact readsBack_fixed ⟨.jp, none, [.indexed x none]⟩ (by cases x <;> exact fun _ => rfl)
        (fun _ => rfl)
  case h_3 e =>
      exact readsBack_withWord (fun f => ⟨.jp, none, [.immediate f]⟩) (fun _ _ _ => rfl)
        (fun _ h m => congrArg Except.ok (Machine.jumpIf_alike (.immediate h) m _))
  case h_4 flag e =>
      exact readsBack_withWord (fun f => ⟨.jp, some flag, [.immediate f]⟩)
        (by cases flag <;> exact fun _ _ _ => rfl)
        (fun _ h m => congrArg Except.ok (Machine.jumpIf_alike (.immediate h) m _))
  case h_5 => exact readsBack_unsupported

theorem readsBack_jumpRelative {target : Mode} :
    (jumpRelative condition target).ReadsBack ctx env address ⟨.jr, condition, [target]⟩ := by
  unfold jumpRelative
  split
  case h_1 e =>
      exact readsBack_relative (fun f => ⟨.jr, none, [.immediate f]⟩) (fun _ _ => rfl)
        (fun _ h m => congrArg Except.ok (Machine.jumpIf_alike (.immediate h) m _))
  case h_2 flag e =>
      split
      case isTrue hr =>
          refine readsBack_relative (fun f => ⟨.jr, some flag, [.immediate f]⟩) ?_
            (fun _ h m => congrArg Except.ok (Machine.jumpIf_alike (.immediate h) m _))
          cases flag with
          | nz | z | nc | c => exact fun _ _ => rfl
          | po | pe | p | m => cases hr
      case isFalse => exact readsBack_unsupported
  case h_3 => exact readsBack_unsupported

theorem readsBack_call {target : Mode} :
    (call condition target).ReadsBack ctx env address ⟨.call, condition, [target]⟩ := by
  unfold call
  split
  case h_1 e =>
      exact readsBack_withWord (fun f => ⟨.call, none, [.immediate f]⟩) (fun _ _ _ => rfl)
        (fun _ h m => congrArg Except.ok (Machine.callIf_alike (.immediate h) m 3 _))
  case h_2 flag e =>
      exact readsBack_withWord (fun f => ⟨.call, some flag, [.immediate f]⟩)
        (by cases flag <;> exact fun _ _ _ => rfl)
        (fun _ h m => congrArg Except.ok (Machine.callIf_alike (.immediate h) m 3 _))
  case h_3 => exact readsBack_unsupported

theorem readsBack_ret : (ret condition).ReadsBack ctx env address ⟨.ret, condition, []⟩ := by
  unfold ret
  split
  case h_1 => exact readsBack_fixed ⟨.ret, none, []⟩ (fun _ => rfl) (fun _ => rfl)
  case h_2 flag =>
      exact readsBack_fixed ⟨.ret, some flag, []⟩ (by cases flag <;> exact fun _ => rfl)
        (fun _ => rfl)

theorem readsBack_restart {e : Expr} :
    (Form.code [.restart e]).ReadsBack ctx env address ⟨.rst, condition, [.immediate e]⟩ := by
  rintro _ ⟨⟩ bytes hb
  obtain ⟨n, hn, hb⟩ := bind_eq_ok.mp (Field.fillAll_singleton.mp hb)
  split at hb
  case isFalse => cases hb
  case isTrue vector =>
      obtain ⟨row, rfl⟩ : ∃ row, n = 8 * row := ⟨n / 8, by omega⟩
      have hr : row < 8 := by omega
      have shape : 0xC7 + 8 * row = 64 * 3 + 8 * row + 7 := by omega
      have unprefixed : Index.ofOpcode? (0xC7 + 8 * row) = none :=
        Index.ofOpcode?_eq_none (by omega) (by omega)
      cases hb
      refine ⟨⟨.rst, none, [.immediate (.ofNat (8 * row))]⟩, fun rest => ?_, fun hm m => ?_⟩
      · refine (Reader.decode_opening none unprefixed rest).trans ?_
        rw [shape, Reader.command_eq_plain 3 hr (by decide) (by omega) (by omega)]
        rfl
      · have hv : (Expr.ofNat (8 * row)).value? env.scope = e.value? env.scope := by
          rw [hm.value hn, Expr.value?_ofNat (by omega)]
        exact congrArg Except.ok (Machine.call_alike (.immediate hv) m 1)

theorem readsBack_interruptMode {e : Expr} {mode : Mode} :
    (Form.code [.opcode 0xED, .interruptMode e]).ReadsBack ctx env address
      ⟨.im, condition, [mode]⟩ := by
  rintro _ ⟨⟩ bytes hb
  obtain ⟨_, ho, hb⟩ := bind_eq_ok.mp hb
  obtain ⟨_, hi, hb⟩ := bind_eq_ok.mp hb
  cases ho
  cases hb
  obtain ⟨n, hn, hi⟩ := bind_eq_ok.mp (Field.fillAll_singleton.mp hi)
  split at hi <;> cases hi
  · exact ⟨⟨.im, none, [.immediate (.ofNat 0)]⟩, fun _ => rfl, fun _ _ => rfl⟩
  · exact ⟨⟨.im, none, [.immediate (.ofNat 1)]⟩, fun _ => rfl, fun _ _ => rfl⟩
  · exact ⟨⟨.im, none, [.immediate (.ofNat 2)]⟩, fun _ => rfl, fun _ _ => rfl⟩

/-! ## ports -/

theorem readsBack_input {target port : Mode} :
    (input target port).ReadsBack ctx env address ⟨.input, condition, [target, port]⟩ := by
  unfold input
  split
  case h_1 e =>
      exact readsBack_withByte (fun f => ⟨.input, none, [.reg8 .a, .absolute f]⟩) (fun _ _ => rfl)
        (fun _ _ he hf m => congrArg Except.ok (Machine.input_lowByte he hf m))
  case h_2 register =>
      split
      case h_1 bits hb =>
          exact readsBack_fixed ⟨.input, none, [.reg8 register, .indirect .c]⟩
            (by cases register <;> cases hb <;> exact fun _ => rfl) (fun _ => rfl)
      case h_2 => exact readsBack_unsupported
  case h_3 => exact readsBack_unsupported

theorem readsBack_output {port source : Mode} :
    (output port source).ReadsBack ctx env address ⟨.output, condition, [port, source]⟩ := by
  unfold output
  split
  case h_1 e =>
      exact readsBack_withByte (fun f => ⟨.output, none, [.absolute f, .reg8 .a]⟩) (fun _ _ => rfl)
        (fun _ _ he hf m => congrArg Except.ok (Machine.output_lowByte he hf m))
  case h_2 register =>
      split
      case h_1 bits hb =>
          exact readsBack_fixed ⟨.output, none, [.indirect .c, .reg8 register]⟩
            (by cases register <;> cases hb <;> exact fun _ => rfl) (fun _ => rfl)
      case h_2 => exact readsBack_unsupported
  case h_3 => exact readsBack_unsupported

/-! ## all instructions -/

theorem readsBack_implied {m : Mnemonic} {bytes : List Nat} (h : implied? m = some bytes) :
    (fixed bytes).ReadsBack ctx env address ⟨m, condition, []⟩ := by
  refine readsBack_fixed ⟨m, none, []⟩ ?_ ?_
  · unfold implied? at h
    split at h
    case h_19 s | h_20 s | h_21 s | h_22 s =>
        cases h
        obtain ⟨down, repeats⟩ := s
        cases down <;> cases repeats <;> exact fun _ => rfl
    case h_23 => cases h
    all_goals
      cases h
      exact fun _ => rfl
  · intro machine
    -- Without operands, only these look at a condition, and their code is not fixed.
    cases m with
    | jp | jr | call | ret => cases h
    | _ => rfl

/-- The code of any instruction reads back as a command that does the same, but for the
parentheses around the pair of an exchange. -/
theorem readsBack_ofParts (c : Command) :
    (ofParts c.mnemonic c.condition c.modes).ReadsBack ctx env address c.straight := by
  obtain ⟨mnemonic, condition, modes⟩ := c
  dsimp only
  unfold ofParts
  split
  case h_1 hi =>
      rw [Command.straight_implied]
      exact readsBack_implied hi
  case h_2 => exact readsBack_load
  case h_3 => exact readsBack_push
  case h_4 => exact readsBack_pop
  case h_5 => exact readsBack_exchange
  case h_6 => exact readsBack_arithmetic
  case h_7 => exact readsBack_inc
  case h_8 => exact readsBack_dec
  case h_9 => exact readsBack_shift
  case h_10 => exact readsBack_bit
  case h_11 => exact readsBack_jump
  case h_12 => exact readsBack_jumpRelative
  case h_13 e _ =>
      exact readsBack_relative (fun f => ⟨.djnz, none, [.immediate f]⟩) (fun _ _ => rfl)
        (fun _ _ _ => rfl)
  case h_14 => exact readsBack_call
  case h_15 => exact readsBack_ret
  case h_16 => exact readsBack_restart
  case h_17 => exact readsBack_interruptMode
  case h_18 => exact readsBack_input
  case h_19 => exact readsBack_output
  case h_20 => exact readsBack_unsupported

end Form

namespace Instruction

/-- What the instruction tells the machine to do, if its word is one of the language. -/
def command? (i : Instruction) : Option Command :=
  match i.operation with
  | .mnemonic m => some ⟨m, i.condition, i.operands.map (·.mode)⟩
  | _ => none

/-- **Round trip.**  Whatever follows the code of an instruction, exactly the code is taken off
and read as a command.  The command does what the instruction does, but for the parentheses
around the pair of an exchange. -/
theorem decode_encode {i : Instruction} {bytes : List Nat} (h : i.encode ctx = .ok bytes) :
    ∃ c, i.command? = some c ∧ ReadsBack ctx env address c.straight bytes := by
  obtain ⟨_, fields, _, hc, hb⟩ := encode_eq_ok.mp h
  cases ho : i.operation with
  | mnemonic m =>
      simp only [form, ho] at hc
      exact ⟨_, by rw [command?, ho], Form.readsBack_ofParts ⟨m, _, _⟩ fields hc bytes hb⟩
  | directive d => simp [form, ho, Form.unsupported, Form.refused] at hc
  | unknown word => simp [form, ho, Form.unsupported, Form.refused] at hc

end Instruction

end Z80Workbench
