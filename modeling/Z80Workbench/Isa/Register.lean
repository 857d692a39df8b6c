/-!
# Z80Workbench.Isa.Register

Registers as operands name them: single registers, pairs, and registers in parentheses.
-/

namespace Z80Workbench

/-- An eight-bit register. `i` and `r` take part in a few loads only. -/
inductive Reg8 where
  | a | b | c | d | e | h | l | i | r
  deriving Repr, DecidableEq

/-- An index register. -/
inductive Index where
  | ix | iy
  deriving Repr, DecidableEq

/-- A sixteen-bit register. -/
inductive Pair where
  | bc | de | hl | sp | af | afShadow
  | index (x : Index)
  deriving Repr, DecidableEq

/-- A register whose value is an address, or a port in the case of `c`. -/
inductive Pointer where
  | hl | bc | de | sp | c
  deriving Repr, DecidableEq

namespace Reg8

/-- All eight-bit registers. -/
def all : List Reg8 := [a, b, c, d, e, h, l, i, r]

/-- The name of a register. -/
def name : Reg8 → String
  | a => "A" | b => "B" | c => "C" | d => "D" | e => "E"
  | h => "H" | l => "L" | i => "I" | r => "R"

/-- The register of a name in capital letters. -/
def ofName? (s : String) : Option Reg8 := all.find? (·.name == s)

theorem ofName?_name (x : Reg8) : ofName? x.name = some x := by
  cases x <;> decide

end Reg8

namespace Index

/-- The name of an index register. -/
def name : Index → String
  | ix => "IX" | iy => "IY"

end Index

namespace Pair

/-- All sixteen-bit registers. -/
def all : List Pair := [bc, de, hl, sp, af, afShadow, index .ix, index .iy]

/-- The name of a pair. -/
def name : Pair → String
  | bc => "BC" | de => "DE" | hl => "HL" | sp => "SP" | af => "AF" | afShadow => "AF'"
  | index x => x.name

/-- The pair of a name in capital letters. -/
def ofName? (s : String) : Option Pair := all.find? (·.name == s)

theorem ofName?_name (x : Pair) : ofName? x.name = some x := by
  rcases x with _ | _ | _ | _ | _ | _ | x
  iterate 6 decide
  cases x <;> decide

end Pair

namespace Pointer

/-- All pointers. -/
def all : List Pointer := [hl, bc, de, sp, c]

/-- The name of a pointer. -/
def name : Pointer → String
  | hl => "HL" | bc => "BC" | de => "DE" | sp => "SP" | c => "C"

/-- The pointer of a name in capital letters. -/
def ofName? (s : String) : Option Pointer := all.find? (·.name == s)

/-- The pair that holds the address; a port is in a single register. -/
def pair? : Pointer → Option Pair
  | hl => some .hl | bc => some .bc | de => some .de | sp => some .sp | c => none

end Pointer

end Z80Workbench
