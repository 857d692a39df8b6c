import Z80Workbench.Proofs.Machine.Block.Copy
import Z80Workbench.Proofs.Machine.Stack

/-!
# Z80Workbench.Proofs.Machine.FlagEffect

Which flags an instruction may change, read off its mnemonic and its operands: `Mnemonic.effect`.
Loops that carry a borrow from byte to byte rest on this: whatever moves their pointers and counts
their bytes has to leave the carry flag alone.
-/

namespace Z80Workbench

open Machine (Env)

/-! ## effects -/

/-- The flags that may change: none, carry only, all but carry, or all. -/
inductive FlagEffect where
  | nothing | carry | result | everything
  deriving Repr, DecidableEq

namespace FlagEffect

/-- The flags have changed within the effect at most. -/
def Allows : FlagEffect → Flags → Flags → Prop
  | nothing, before, after => after = before
  | carry, before, after => after = { before with c := after.c }
  | result, before, after => after.c = before.c
  | everything, _, _ => True

theorem allows_self (effect : FlagEffect) (flags : Flags) : effect.Allows flags flags := by
  cases effect with
  | everything => trivial
  | _ => rfl

/-- Flags that are the same have changed within any effect. -/
theorem allows_of_eq {effect : FlagEffect} {before after : Flags} (h : after = before) :
    effect.Allows before after :=
  h ▸ effect.allows_self after

/-- The carry flag may change. -/
def setsCarry : FlagEffect → Bool
  | carry | everything => true
  | nothing | result => false

theorem Allows.c_eq {effect : FlagEffect} {before after : Flags} (h : effect.Allows before after)
    (keeps : effect.setsCarry = false) : after.c = before.c := by
  cases effect with
  | nothing => exact congrArg Flags.c h
  | result => exact h
  | carry | everything => cases keeps

end FlagEffect

namespace Mnemonic

/-- A load sets flags if it is from an interrupt register. -/
def loadEffect : List Mode → FlagEffect
  | [.reg8 .a, .reg8 .i] | [.reg8 .a, .reg8 .r] => .result
  | _ => .nothing

/-- A pop sets all flags if it is to accumulator and flags. -/
def popEffect : List Mode → FlagEffect
  | .reg16 .af :: _ => .everything
  | _ => .nothing

/-- An exchange sets all flags if it is with the shadow of accumulator and flags. -/
def exchangeEffect : List Mode → FlagEffect
  | [.reg16 .af, .reg16 .afShadow] => .everything
  | _ => .nothing

/-- Arithmetic sets all flags, unless it is an addition to a pair. -/
def arithmeticEffect (op : Alu) : List Mode → FlagEffect
  | [.reg16 _, _] => if op = .add then .carry else .everything
  | _ => .everything

/-- Counting sets flags unless it counts a pair. -/
def countEffect : List Mode → FlagEffect
  | .reg16 _ :: _ => .nothing
  | _ => .result

/-- Reading a port sets flags if the port is in a register. -/
def inputEffect : List Mode → FlagEffect
  | [_, .indirect _] => .result
  | _ => .nothing

/-- The flags that an instruction may change. -/
def effect (mnemonic : Mnemonic) (modes : List Mode) : FlagEffect :=
  match mnemonic with
  | .ld => loadEffect modes
  | .pop => popEffect modes
  | .ex => exchangeEffect modes
  | .alu op => arithmeticEffect op modes
  | .inc | .dec => countEffect modes
  | .input => inputEffect modes
  | .neg | .shift _ => .everything
  | .scf | .ccf | .rotate _ => .carry
  | .bit .test | .rld | .rrd => .result
  | .blockCopy _ | .blockSearch _ | .blockInput _ | .blockOutput _ => .result
  | .bit .set | .bit .reset | .push | .exx | .cpl | .daa | .djnz | .jp | .jr | .call | .rst | .ret
  | .reti | .retn | .output | .nop | .halt | .di | .ei | .im => .nothing

/-- The words that may set the carry flag whatever their operands are. -/
def setsCarry : Mnemonic → Bool
  | .alu _ | .neg | .scf | .ccf | .rotate _ | .shift _ => true
  | _ => false

/-- The words that set no flag whatever their operands are. -/
def keepsFlags : Mnemonic → Bool
  | .push | .exx | .cpl | .bit .set | .bit .reset | .djnz | .jp | .jr | .call | .rst | .ret | .reti
  | .retn | .output | .nop | .halt | .di | .ei | .im | .daa => true
  | _ => false

example : (all.filter setsCarry).map name =
    ["ADD", "ADC", "SUB", "SBC", "AND", "XOR", "OR", "CP", "NEG", "SCF", "CCF", "RLCA", "RRCA",
      "RLA", "RRA", "RLC", "RRC", "RL", "RR", "SLA", "SRA", "SLL", "SRL"] := by
  decide

end Mnemonic

/-- The addressing modes of the operands. -/
def Instruction.modes (i : Instruction) : List Mode := i.operands.map (·.mode)

open Mnemonic (loadEffect popEffect exchangeEffect arithmeticEffect countEffect inputEffect)

namespace Machine

variable {env : Env} {m n : Machine}

/-! ## loads and exchanges -/

theorem flags_storeWord (address value : Nat) : (m.storeWord address value).flags = m.flags := rfl

theorem flags_setByte? {mode : Mode} {value : Nat} (h : m.setByte? env mode value = some n) :
    n.flags = m.flags := by
  unfold setByte? at h
  split at h
  · cases h
    rfl
  · obtain ⟨address, -, rfl⟩ := Option.map_eq_some_iff.mp h
    rfl

theorem flags_loadMemory (target source : Mode) :
    (m.loadMemory env target source).flags = m.flags := by
  unfold loadMemory
  split
  · rfl
  · split <;> rfl
  · rfl

theorem effect_load (target source : Mode) :
    (loadEffect [target, source]).Allows m.flags (m.load env target source).flags := by
  unfold load
  split
  case h_1 | h_2 => exact rfl
  case h_3 | h_4 =>
      refine FlagEffect.allows_of_eq ?_
      split <;> rfl
  case h_5 => exact FlagEffect.allows_self _ _
  case h_6 => exact FlagEffect.allows_of_eq (flags_loadMemory _ _)

/-- Only the pair of accumulator and flags holds flags. -/
theorem flags_setPair {p : Pair} {value : Nat} (h : m.setPair p value = .ok n) (other : p ≠ .af) :
    n.flags = m.flags := by
  rw [setPair, if_neg other] at h
  split at h
  · cases h
    rfl
  · cases h

theorem effect_pop {p : Pair} {rest : List Mode} (h : m.drop.setPair p (m.top env) = .ok n) :
    (popEffect (.reg16 p :: rest)).Allows m.flags n.flags := by
  cases p with
  | af => trivial
  | _ => exact FlagEffect.allows_of_eq ((flags_setPair h nofun).trans (flags_setSp _))

theorem flags_exchangeTop {p : Pair} (h : m.exchangeTop env p = .ok n) : n.flags = m.flags := by
  unfold exchangeTop at h
  split at h
  case isTrue => cases h
  case isFalse other => exact (flags_setPair h other).trans (flags_storeWord _ _)

/-- No register in parentheses is accumulator and flags or their shadow. -/
theorem eq_reg16_of_af {mode : Mode} {p : Pair} (hp : p = .af ∨ p = .afShadow)
    (h : mode.pair? = some p) : mode = .reg16 p := by
  cases mode with
  | reg16 q => exact congrArg Mode.reg16 (Option.some.inj h)
  | indirect q => cases q <;> cases h <;> simp at hp
  | indexed x offset => cases h; simp at hp
  | reg8 | immediate | absolute => cases h

theorem effect_exchange {first second : Mode} (h : m.exchange env first second = .ok n) :
    (exchangeEffect [first, second]).Allows m.flags n.flags := by
  unfold exchange at h
  split at h
  case h_1 | h_2 =>
      cases h
      exact FlagEffect.allows_of_eq rfl
  case h_3 hf hs =>
      rw [eq_reg16_of_af (.inl rfl) hf, eq_reg16_of_af (.inr rfl) hs]
      trivial
  case h_4 =>
      split at h
      · exact FlagEffect.allows_of_eq (flags_exchangeTop h)
      · cases h
        exact FlagEffect.allows_self _ _

/-! ## arithmetic -/

/-- A plain addition to a pair sets carry only. -/
theorem flags_accumulatePair_add (p : Pair) (source : Mode) :
    FlagEffect.carry.Allows m.flags (m.accumulatePair env .add p source).flags := by
  unfold accumulatePair
  dsimp only
  split
  · exact rfl
  · exact FlagEffect.allows_self _ _

theorem effect_arithmetic (op : Alu) (modes : List Mode) :
    (arithmeticEffect op modes).Allows m.flags (m.arithmetic env op modes).flags := by
  unfold arithmeticEffect
  split
  case h_1 p source =>
      split
      case isTrue add =>
          rw [add]
          exact flags_accumulatePair_add p source
      case isFalse => trivial
  case h_2 => trivial

theorem c_countByte (down : Bool) (mode : Mode) (value : Nat) :
    (m.countByte env down mode value).flags.c = m.flags.c := by
  unfold countByte
  dsimp only
  split <;> rfl

theorem effect_count (down : Bool) (mode : Mode) (rest : List Mode) :
    (countEffect (mode :: rest)).Allows m.flags (m.count env down mode).flags := by
  unfold count
  split
  case h_1 => exact rfl
  case h_2 => exact FlagEffect.allows_self _ _
  case h_3 pair _ =>
      have byte : countEffect (mode :: rest) = .result := by
        cases mode with
        | reg16 p => exact absurd rfl (pair p)
        | _ => rfl
      rw [byte]
      split
      · exact c_countByte down mode _
      · rfl

/-! ## bits and digits -/

theorem flags_changeBit {action : BitAction} (write : action ≠ .test) (number mode : Mode) :
    (m.changeBit env action number mode).flags = m.flags := by
  have written (value : Nat) : ((m.setByte? env mode value).getD m).flags = m.flags := by
    cases h : m.setByte? env mode value with
    | none => rfl
    | some n => exact flags_setByte? h
  unfold changeBit
  split
  · split
    · cases action with
      | test => contradiction
      | set | reset => exact written _
    · rfl
  · rfl

theorem c_changeBit_test (number mode : Mode) :
    (m.changeBit env .test number mode).flags.c = m.flags.c := by
  unfold changeBit
  split
  · split <;> rfl
  · rfl

/-! ## control transfers and ports -/

theorem flags_setPc (value : Nat) : (m.setPc value).flags = m.flags := rfl

theorem flags_jump (target : Option Mode) : (m.jump env target).flags = m.flags := by
  unfold jump
  split
  · rfl
  · rfl
  · split <;> rfl
  · rfl

theorem flags_callFirmware (address : Nat) : (m.callFirmware env address).flags = m.flags := by
  unfold callFirmware
  dsimp only
  split
  · rfl
  · split
    · rfl
    · split <;> rfl

theorem flags_call (length : Nat) (target : Option Mode) :
    (m.call env length target).flags = m.flags := by
  unfold call
  dsimp only
  split
  · rw [flags_callFirmware, flags_setPc, flags_push]
  · exact flags_push _

theorem flags_output (port source : Mode) : (m.output env port source).flags = m.flags := by
  unfold output
  split <;> rfl

theorem effect_input (target port : Mode) :
    (inputEffect [target, port]).Allows m.flags (m.input env target port).flags := by
  unfold input
  split
  · cases port with
    | indirect p => exact rfl
    | _ => exact rfl
  · exact FlagEffect.allows_self _ _

/-! ## block instructions -/

/-- What every step keeps is kept by all of them. -/
theorem c_iterate {f : Machine → Machine} (h : ∀ m, (f m).flags.c = m.flags.c) (count : Nat)
    (m : Machine) : (iterate f count m).flags.c = m.flags.c := by
  induction count generalizing m with
  | zero => rfl
  | succ count ih => exact (ih (f m)).trans (h m)

theorem exists_flags_searchByte (down : Bool) (m : Machine) :
    ∃ z s, (m.searchByte env down).flags = { m.flags with z, s } :=
  ⟨_, _, rfl⟩

theorem c_searchBlock (down : Bool) (count : Nat) (m : Machine) :
    (searchBlock env down count m).flags.c = m.flags.c := by
  induction count generalizing m with
  | zero => rfl
  | succ count ih =>
      have first : (m.searchByte env down).flags.c = m.flags.c := by
        obtain ⟨z, s, flags⟩ := @exists_flags_searchByte env down m
        rw [flags]
      rw [searchBlock]
      split
      · exact first
      · exact (ih (m.searchByte env down)).trans first

theorem flags_receiveByte (down : Bool) (m : Machine) :
    (m.receiveByte down).flags = m.flags := by
  unfold receiveByte
  split <;> rfl

/-! ## all instructions -/

/-- An instruction changes no flag beyond its effect. -/
theorem effect_perform {mnemonic : Mnemonic} {condition : Option Condition} {modes : List Mode}
    (h : m.perform env mnemonic condition modes = .ok n) :
    (mnemonic.effect modes).Allows m.flags n.flags := by
  unfold perform at h
  split at h
  case h_3 => exact effect_pop h
  case h_4 => exact effect_exchange h
  all_goals cases h
  case h_1 => exact effect_load _ _
  case h_2 => exact flags_push _
  case h_5 => exact rfl
  case h_6 => exact effect_arithmetic _ _
  case h_7 | h_8 => exact effect_count _ _ _
  case h_9 => trivial
  case h_10 => exact rfl
  case h_11 | h_12 => exact rfl
  case h_13 => exact rfl
  case h_14 => trivial
  case h_15 action number mode =>
      cases action with
      | test => exact c_changeBit_test _ _
      | set | reset => exact flags_changeBit (by decide) _ _
  case h_16 | h_17 => exact rfl
  case h_18 | h_19 =>
      split
      · exact flags_jump _
      · exact rfl
  case h_20 => exact rfl
  case h_21 =>
      split
      · exact flags_call _ _
      · exact rfl
  case h_22 => exact flags_call _ _
  case h_23 => split <;> exact rfl
  case h_24 | h_25 => exact rfl
  case h_26 => exact effect_input _ _
  case h_27 => exact flags_output _ _
  case h_28 => exact c_iterate (fun _ => congrArg Flags.c Copied.flags_copyByte) _ m
  case h_29 => exact c_searchBlock _ _ m
  case h_30 => exact c_iterate (fun m => congrArg Flags.c (flags_receiveByte _ m)) _ m
  case h_31 => exact c_iterate (f := sendByte env _) (fun _ => rfl) _ m
  case h_32 => exact FlagEffect.allows_self _ _

theorem effect_executeAt {mnemonic : Mnemonic} {i : Instruction} {address : Option Nat}
    (operation : i.operation = .mnemonic mnemonic) (h : m.executeAt env i address = .ok n) :
    (mnemonic.effect i.modes).Allows m.flags n.flags := by
  rw [← m.flags_arriveAt address]
  have performed : (m.arriveAt address).perform env mnemonic i.condition i.modes = .ok n := by
    rw [← h, executeAt, execute, operation]
    rfl
  exact effect_perform performed

/-- Words that are no mnemonic change nothing but the program counter. -/
theorem flags_executeAt_of_other {i : Instruction} {address : Option Nat}
    (other : ∀ mnemonic, i.operation ≠ .mnemonic mnemonic) (h : m.executeAt env i address = .ok n) :
    n.flags = m.flags := by
  rw [← m.flags_arriveAt address]
  rw [executeAt, execute] at h
  split at h
  case h_1 mnemonic operation => exact absurd operation (other mnemonic)
  case h_2 =>
      cases h
      rfl

end Machine

/-! ## instructions by their effect -/

namespace Instruction

variable {i : Instruction}

/-- The instruction may set the carry flag: by its mnemonic, or because it writes accumulator and
flags. -/
inductive SetsCarry (i : Instruction) : Prop
  | mnemonic {m : Mnemonic} (operation : i.operation = .mnemonic m) (sets : m.setsCarry = true)
  | pop {rest : List Mode} (operation : i.operation = .mnemonic .pop)
      (modes : i.modes = .reg16 .af :: rest)
  | exchange (operation : i.operation = .mnemonic .ex)
      (modes : i.modes = [.reg16 .af, .reg16 .afShadow])

/-- The instruction sets no flag. -/
inductive KeepsFlags (i : Instruction) : Prop
  | mnemonic {m : Mnemonic} (operation : i.operation = .mnemonic m) (keeps : m.keepsFlags = true)
  | load (operation : i.operation = .mnemonic .ld)
      (interrupt : i.modes ∉ [[.reg8 .a, .reg8 .i], [.reg8 .a, .reg8 .r]])
  | pop (operation : i.operation = .mnemonic .pop) (other : .reg16 .af ∉ i.modes)
  | exchange (operation : i.operation = .mnemonic .ex) (other : .reg16 .af ∉ i.modes)
  | count {m : Mnemonic} {p : Pair} {rest : List Mode} (operation : i.operation = .mnemonic m)
      (counts : m ∈ [.inc, .dec]) (modes : i.modes = .reg16 p :: rest)
  | input {port : Expr} (operation : i.operation = .mnemonic .input)
      (modes : i.modes = [.reg8 .a, .absolute port])

/-- The instruction sets the carry flag and no other. -/
inductive SetsCarryOnly (i : Instruction) : Prop
  | add {p : Pair} {source : Mode} (operation : i.operation = .mnemonic (.alu .add))
      (wide : p ∈ [.hl, .index .ix, .index .iy]) (modes : i.modes = [.reg16 p, source])
  | rotate {op : Rotation} (operation : i.operation = .mnemonic (.rotate op))

/-- Only such an instruction has an effect on carry. -/
theorem setsCarry_of_effect {m : Mnemonic} (operation : i.operation = .mnemonic m)
    (h : (m.effect i.modes).setsCarry = true) : i.SetsCarry := by
  cases m with
  | alu | neg | scf | ccf | rotate | shift => exact .mnemonic operation rfl
  | pop =>
      change (popEffect i.modes).setsCarry = true at h
      unfold popEffect at h
      split at h
      case h_1 rest modes => exact .pop operation modes
      case h_2 => cases h
  | ex =>
      change (exchangeEffect i.modes).setsCarry = true at h
      unfold exchangeEffect at h
      split at h
      case h_1 modes => exact .exchange operation modes
      case h_2 => cases h
  | ld =>
      change (loadEffect i.modes).setsCarry = true at h
      unfold loadEffect at h
      split at h <;> cases h
  | inc | dec =>
      change (countEffect i.modes).setsCarry = true at h
      unfold countEffect at h
      split at h <;> cases h
  | input =>
      change (inputEffect i.modes).setsCarry = true at h
      unfold inputEffect at h
      split at h <;> cases h
  | bit action => cases action <;> cases h
  | _ => cases h

theorem KeepsFlags.effect (h : i.KeepsFlags) :
    ∃ m, i.operation = .mnemonic m ∧ m.effect i.modes = .nothing := by
  cases h with
  | @mnemonic m operation keeps =>
      refine ⟨m, operation, ?_⟩
      cases m with
      | bit action =>
          cases action with
          | set | reset => rfl
          | test => cases keeps
      | push | exx | cpl | djnz | jp | jr | call | rst | ret | reti | retn | output | nop | halt
      | di | ei | im | daa => rfl
      | _ => cases keeps
  | load operation interrupt =>
      refine ⟨.ld, operation, ?_⟩
      rw [Mnemonic.effect, loadEffect]
      · intro modes
        exact interrupt (by simp [modes])
      · intro modes
        exact interrupt (by simp [modes])
  | pop operation other =>
      refine ⟨.pop, operation, ?_⟩
      rw [Mnemonic.effect, popEffect]
      intro rest modes
      exact other (by simp [modes])
  | exchange operation other =>
      refine ⟨.ex, operation, ?_⟩
      rw [Mnemonic.effect, exchangeEffect]
      intro modes
      exact other (by simp [modes])
  | @count m p rest operation counts modes =>
      refine ⟨m, operation, ?_⟩
      rw [modes]
      simp only [List.mem_cons, List.not_mem_nil, or_false] at counts
      rcases counts with rfl | rfl <;> rfl
  | input operation modes => exact ⟨.input, operation, by rw [modes]; rfl⟩

theorem SetsCarryOnly.effect (h : i.SetsCarryOnly) :
    ∃ m, i.operation = .mnemonic m ∧ m.effect i.modes = .carry := by
  cases h with
  | add operation wide modes => exact ⟨.alu .add, operation, by rw [modes]; rfl⟩
  | @rotate op operation => exact ⟨.rotate op, operation, rfl⟩

end Instruction

namespace Machine

variable {env : Env} {m n : Machine} {i : Instruction} {address : Option Nat}

/-- **The flag frame of the instruction set.**  Whatever an instruction with whatever operands does
to a machine in whatever state, the carry flag changes only if the instruction is one that sets it,
no flag changes if it is one that keeps them, and no flag but carry if it is one that sets carry
only. -/
theorem flags_executeAt (h : m.executeAt env i address = .ok n) :
    (n.flags.c ≠ m.flags.c → i.SetsCarry) ∧
    (i.KeepsFlags → n.flags = m.flags) ∧
    (i.SetsCarryOnly → n.flags = { m.flags with c := n.flags.c }) := by
  refine ⟨fun changed => ?sets, fun keeps => ?keeps, fun only => ?only⟩
  case sets =>
      cases operation : i.operation with
      | directive d | unknown word =>
          have kept := flags_executeAt_of_other (by simp [operation]) h
          exact absurd (congrArg Flags.c kept) changed
      | mnemonic mnemonic =>
          have effect := effect_executeAt operation h
          refine Instruction.setsCarry_of_effect operation ?_
          rw [← Bool.not_eq_false]
          exact fun keeps => changed (effect.c_eq keeps)
  case keeps =>
      obtain ⟨mnemonic, operation, effect⟩ := keeps.effect
      have allowed := effect_executeAt operation h
      rwa [effect] at allowed
  case only =>
      obtain ⟨mnemonic, operation, effect⟩ := only.effect
      have allowed := effect_executeAt operation h
      rwa [effect] at allowed

/-- A machine between two bytes of a long subtraction, with a borrow in the carry flag. -/
def borrowing : Machine :=
  { initial {} with registers := (initial {}).registers.setHl 0x40FF, flags := { c := true } }

theorem flags_executeAt_borrow : ∃ next last : Machine,
    borrowing.executeAt bareEnv
        ⟨.mnemonic .inc, none, [⟨"HL", .reg16 .hl⟩], "HL"⟩ (some 0x8000) = .ok next ∧
      next.registers.hl = 0x4100 ∧ next.flags = { c := true } ∧
    next.executeAt bareEnv
        ⟨.mnemonic (.alu .add), none, [⟨"HL", .reg16 .hl⟩, ⟨"HL", .reg16 .hl⟩], "HL,HL"⟩ none =
        .ok last ∧
      last.registers.hl = 0x8200 ∧ last.flags = {} := by
  obtain ⟨next, stepped⟩ : ∃ next, borrowing.executeAt bareEnv
      ⟨.mnemonic .inc, none, [⟨"HL", .reg16 .hl⟩], "HL"⟩ (some 0x8000) = .ok next := ⟨_, rfl⟩
  have moved : next.registers.hl = 0x4100 := by cases stepped; rfl
  obtain ⟨last, added⟩ : ∃ last, next.executeAt bareEnv
      ⟨.mnemonic (.alu .add), none, [⟨"HL", .reg16 .hl⟩, ⟨"HL", .reg16 .hl⟩], "HL,HL"⟩ none =
      .ok last := ⟨_, rfl⟩
  have doubled : last.registers.hl = 0x8200 := by cases stepped; cases added; rfl
  have kept : next.flags = borrowing.flags :=
    (flags_executeAt stepped).2.1 (.count rfl List.mem_cons_self rfl)
  have only : last.flags = { next.flags with c := last.flags.c } :=
    (flags_executeAt added).2.2 (.add rfl List.mem_cons_self rfl)
  refine ⟨next, last, stepped, moved, kept, added, doubled, ?_⟩
  have carry : last.flags.c = false := by cases stepped; cases added; decide
  rw [only, kept, carry]
  rfl

end Machine

end Z80Workbench
