import Z80Workbench.Isa.Instruction

/-!
# Z80Workbench.Isa.Timing

Estimated durations of instructions, in clock cycles, by the shapes of their operands. A
conditional transfer is given the duration of the taken branch.
-/

namespace Z80Workbench

/-- The shape of an operand, as far as durations depend on it. -/
inductive Shape where
  | register | interruptRegister
  | hl | pair | index | afShadow
  | value
  | atHl | atPair | atSp | port | atIndex | atAddress
  deriving Repr, DecidableEq

namespace Shape

/-- The short sign of a shape. -/
def sign : Shape → String
  | register => "r" | interruptRegister => "ir"
  | hl => "hl" | pair => "rr" | index => "xy" | afShadow => "af'"
  | value => "n"
  | atHl => "(hl)" | atPair => "(rr)" | atSp => "(sp)" | port => "(c)"
  | atIndex => "(xy)" | atAddress => "(nn)"

end Shape

/-- The shape of an addressing mode. -/
def Mode.shape : Mode → Shape
  | .reg8 .i | .reg8 .r => .interruptRegister
  | .reg8 _ => .register
  | .reg16 .hl => .hl
  | .reg16 (.index _) => .index
  | .reg16 .afShadow => .afShadow
  | .reg16 _ => .pair
  | .immediate _ => .value
  | .indirect .hl => .atHl
  | .indirect .sp => .atSp
  | .indirect .c => .port
  | .indirect _ => .atPair
  | .indexed _ _ => .atIndex
  | .absolute _ => .atAddress

namespace Timing

/-- The duration of a load. -/
def load? : Shape → Shape → Option Nat
  | .register, .register => some 4
  | .register, .value => some 7
  | .register, .atHl => some 7
  | .register, .atPair => some 7
  | .register, .atIndex => some 19
  | .register, .atAddress => some 13
  | .register, .interruptRegister => some 9
  | .interruptRegister, .register => some 9
  | .atHl, .register => some 7
  | .atHl, .value => some 10
  | .atPair, .register => some 7
  | .atIndex, .register => some 19
  | .atIndex, .value => some 19
  | .atAddress, .register => some 13
  | .pair, .value => some 10
  | .hl, .value => some 10
  | .index, .value => some 14
  | .hl, .atAddress => some 16
  | .pair, .atAddress => some 20
  | .index, .atAddress => some 20
  | .atAddress, .hl => some 16
  | .atAddress, .pair => some 20
  | .atAddress, .index => some 20
  | .pair, .hl => some 6
  | .pair, .index => some 10
  | _, _ => none

/-- The duration of an operation on the accumulator. -/
def accumulator? : Shape → Option Nat
  | .register => some 4
  | .value => some 7
  | .atHl => some 7
  | .atIndex => some 19
  | _ => none

/-- The duration of an addition or subtraction of pairs. -/
def pairs? : Alu → Shape → Shape → Option Nat
  | .add, .hl, .pair | .add, .hl, .hl => some 11
  | .adc, .hl, .pair | .adc, .hl, .hl | .sbc, .hl, .pair | .sbc, .hl, .hl => some 15
  | .add, .index, .pair | .add, .index, .index => some 15
  | _, _, _ => none

/-- The duration of an increment or decrement. -/
def count? : Shape → Option Nat
  | .register => some 4
  | .atHl => some 11
  | .atIndex => some 23
  | .pair => some 6
  | .hl => some 6
  | .index => some 10
  | _ => none

/-- The duration of a shift. -/
def shift? : Shape → Option Nat
  | .register => some 8
  | .atHl => some 15
  | .atIndex => some 23
  | _ => none

/-- The duration of an operation on a bit. -/
def bit? : BitAction → Shape → Shape → Option Nat
  | _, .value, .register => some 8
  | .test, .value, .atHl => some 12
  | .test, .value, .atIndex => some 20
  | _, .value, .atHl => some 15
  | _, .value, .atIndex => some 23
  | _, _, _ => none

/-- The duration of an instruction with operands of the given shapes, where it depends on
them. -/
def byShape? : Mnemonic → List Shape → Option Nat
  | .ld, [target, source] => load? target source
  | .push, [.pair] | .push, [.hl] => some 11
  | .push, [.index] => some 15
  | .pop, [.pair] | .pop, [.hl] => some 10
  | .pop, [.index] => some 14
  | .ex, [.pair, .hl] | .ex, [.pair, .afShadow] => some 4
  | .ex, [.atSp, .hl] => some 19
  | .ex, [.atSp, .index] => some 23
  | .alu _, [shape] => accumulator? shape
  | .alu op, [target, source] => pairs? op target source
  | .inc, [shape] | .dec, [shape] => count? shape
  | .shift _, [shape] => shift? shape
  | .bit action, [number, shape] => bit? action number shape
  | .jp, [.value] => some 10
  | .jp, [.atHl] => some 4
  | .jp, [.atIndex] => some 8
  | .input, [.register, .atAddress] => some 11
  | .input, [.register, .port] => some 12
  | .output, [.atAddress, .register] => some 11
  | .output, [.port, .register] => some 12
  | _, _ => none

/-- The duration of an instruction whose shapes have none of their own. -/
def byWord : Mnemonic → Nat
  | .im | .neg => 8
  | .rld | .rrd => 18
  | .blockCopy s | .blockSearch s | .blockInput s | .blockOutput s => if s.repeats then 21 else 16
  | .jp | .ret => 10
  | .jr => 12
  | .djnz => 13
  | .call => 17
  | .reti | .retn => 14
  | .rst => 11
  | _ => 4

end Timing

namespace Instruction

/-- The shapes of the operands. An accumulator named as the first of two operands does not
count. -/
def shapes (i : Instruction) : List Shape :=
  let all := i.operands.map (·.mode.shape)
  match i.operation, i.operands with
  | .mnemonic (.alu _), [⟨_, .reg8 .a⟩, _] => all.drop 1
  | _, _ => all

/-- The estimated duration of an instruction; zero for a word that is none. -/
def cycles (i : Instruction) : Nat :=
  match i.operation with
  | .mnemonic m =>
    if m = .ret ∧ i.condition.isSome then 11
    else (Timing.byShape? m i.shapes).getD (Timing.byWord m)
  | _ => 0

end Instruction

end Z80Workbench
