import Z80Workbench.Isa.Mnemonic
import Z80Workbench.Machine.Flags
import Z80Workbench.Word

/-!
# Z80Workbench.Machine.Arithmetic

Arithmetic on bytes and words, with the flags it sets. Overflow is told from signs: a sum
overflows if both operands have a sign that the result has not, a difference if the operands
differ in sign and the result has not the sign of the minuend.
-/

namespace Z80Workbench.Arithmetic

/-- Whether bit 7 of a number is set. -/
def negative8 (n : Nat) : Bool := n.testBit 7

/-- Whether bit 15 of a number is set. -/
def negative16 (n : Nat) : Bool := n.testBit 15

/-- Whether the number of ones in a byte is even. -/
def evenParity (n : Nat) : Bool :=
  ((List.range 8).filter n.testBit).length % 2 = 0

/-- The sign, zero and parity flags of a byte, with the given carry. -/
def parityFlags (n : Nat) (carry : Bool) : Flags where
  z := n % 256 = 0
  s := negative8 n
  c := carry
  pv := evenParity n

/-- The flags of a bitwise operation. -/
def logicFlags (n : Nat) : Flags := parityFlags n false

/-- The sum of two numbers and a carry, as a byte; the carry out tells that it does not fit. -/
def add8 (a b : Int) (carry : Bool) : Nat × Flags :=
  let sum := a + b + carry.toNat
  let result := byte sum
  (result,
    { z := result = 0
      s := negative8 result
      c := 255 < sum
      pv := negative8 (byte a) = negative8 (byte b) ∧ negative8 result ≠ negative8 (byte a) })

/-- The difference of two numbers and a borrow, as a byte; the carry out tells that it is
negative. -/
def sub8 (a b : Int) (borrow : Bool) : Nat × Flags :=
  let difference := a - b - borrow.toNat
  let result := byte difference
  (result,
    { z := result = 0
      s := negative8 result
      c := difference < 0
      pv := negative8 (byte a) ≠ negative8 (byte b) ∧ negative8 result ≠ negative8 (byte a) })

/-- The sum of two words and a carry. -/
def add16 (a b : Nat) (carry : Bool) : Nat × Flags :=
  let sum := a + b + carry.toNat
  (sum % 65536,
    { z := sum % 65536 = 0
      s := negative16 sum
      c := 65536 ≤ sum
      pv := negative16 a = negative16 b ∧ negative16 sum ≠ negative16 a })

/-- The difference of two words and a borrow. -/
def sub16 (a b : Nat) (borrow : Bool) : Nat × Flags :=
  let difference := word (a - b - borrow.toNat)
  (difference,
    { z := difference = 0
      s := negative16 difference
      c := a < b + borrow.toNat
      pv := negative16 a ≠ negative16 b ∧ negative16 difference ≠ negative16 a })

/-- An operation on the accumulator: its new value and the flags. A comparison keeps the
accumulator. -/
def accumulator (op : Alu) (a value : Nat) (carry : Bool) : Nat × Flags :=
  match op with
  | .add => add8 a value false
  | .adc => add8 a value carry
  | .sub => sub8 a value false
  | .sbc => sub8 a value carry
  | .cp => (a, (sub8 a value false).2)
  | .and => (a &&& value, logicFlags (a &&& value))
  | .or => (a ||| value, logicFlags (a ||| value))
  | .xor => (a ^^^ value, logicFlags (a ^^^ value))

/-- An operation on pairs: the new value of the first and the flags. A plain addition sets
carry only; the other operations are for bytes. -/
def pairs? (op : Alu) (a value : Nat) (flags : Flags) : Option (Nat × Flags) :=
  match op with
  | .add =>
    let sum := add16 a value false
    some (sum.1, { flags with c := sum.2.c })
  | .adc => some (add16 a value flags.c)
  | .sbc => some (sub16 a value flags.c)
  | _ => none

/-- A byte increased by one. -/
def increment (n : Nat) : Nat := (n + 1) % 256

/-- A byte decreased by one. -/
def decrement (n : Nat) : Nat := (n + 255) % 256

/-- A word moved on by one, downwards or upwards. -/
def move (down : Bool) (n : Nat) : Nat := (n + if down then 65535 else 1) % 65536

/-- A rotation of the accumulator: its new value and carry. -/
def rotate (op : Rotation) (a : Nat) (carry : Bool) : Nat × Bool :=
  match op with
  | .rlca => (a * 2 % 256 + a / 128, negative8 a)
  | .rrca => (a / 2 + a % 2 * 128, a.testBit 0)
  | .rla => (a * 2 % 256 + carry.toNat, negative8 a)
  | .rra => (a / 2 + carry.toNat * 128, a.testBit 0)

/-- A shift of a byte: its new value and carry. -/
def shift (op : Shift) (n : Nat) (carry : Bool) : Nat × Bool :=
  match op with
  | .rlc => (n * 2 % 256 + n / 128, negative8 n)
  | .rrc => (n / 2 + n % 2 * 128, n.testBit 0)
  | .rl => (n * 2 % 256 + carry.toNat, negative8 n)
  | .rr => (n / 2 + carry.toNat * 128, n.testBit 0)
  | .sla => (n * 2 % 256, negative8 n)
  | .sra => (n / 2 + n / 128 * 128, n.testBit 0)
  | .sll => (n * 2 % 256 + 1, negative8 n)
  | .srl => (n / 2, n.testBit 0)

theorem add8_lt (a b : Int) (carry : Bool) : (add8 a b carry).1 < 256 := byte_lt _

theorem sub8_lt (a b : Int) (borrow : Bool) : (sub8 a b borrow).1 < 256 := byte_lt _

end Z80Workbench.Arithmetic
