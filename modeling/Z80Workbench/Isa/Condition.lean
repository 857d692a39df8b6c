/-!
# Z80Workbench.Isa.Condition

Conditions of jumps, calls and returns.
-/

namespace Z80Workbench

/-- A condition: the state of one flag. -/
inductive Condition where
  | nz | z | nc | c | po | pe | p | m
  deriving Repr, DecidableEq

namespace Condition

/-- All conditions, in the order of their codes. -/
def all : List Condition := [nz, z, nc, c, po, pe, p, m]

/-- The name of a condition. -/
def name : Condition → String
  | nz => "NZ" | z => "Z" | nc => "NC" | c => "C" | po => "PO" | pe => "PE" | p => "P" | m => "M"

/-- The condition of a name in capital letters. -/
def ofName? (s : String) : Option Condition := all.find? (·.name == s)

/-- The three bits of a condition in an opcode. -/
def code : Condition → Nat
  | nz => 0 | z => 1 | nc => 2 | c => 3 | po => 4 | pe => 5 | p => 6 | m => 7

/-- Whether a relative jump can carry the condition. -/
def isRelative (condition : Condition) : Bool := condition.code < 4

/-- A condition in words. -/
def description : Condition → String
  | nz => "if Zero Flag is Clear"
  | z => "if Zero Flag is Set"
  | nc => "if No Carry"
  | c => "if Carry Flag is Set"
  | po => "if Parity Odd (No Overflow)"
  | pe => "if Parity Even (Overflow)"
  | p => "if Plus (Positive)"
  | m => "if Minus (Negative)"

theorem ofName?_name (condition : Condition) : ofName? condition.name = some condition := by
  cases condition <;> decide

theorem code_lt (condition : Condition) : condition.code < 8 := by
  cases condition <;> decide

end Condition

end Z80Workbench
