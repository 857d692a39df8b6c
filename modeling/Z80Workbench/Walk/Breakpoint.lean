import Z80Workbench.Expr.Literal
import Z80Workbench.Machine.Basic

/-!
# Z80Workbench.Walk.Breakpoint

Breakpoints at lines, with optional conditions such as `A == $FF` or `HL >= BUFFER`.

An operand of a condition is a register (a shadow register may be spelled `A'` or `A_PRIME`), a
literal, a byte that the program has written at the address of a symbol, or the value of a
symbol, in this order. A condition with an operand that has no value does not hold.
-/

namespace Z80Workbench

open Text

/-- A comparison of numbers. -/
inductive Comparison where
  | eq | ne | ge | le | gt | lt
  deriving Repr, DecidableEq

namespace Comparison

/-- All comparisons, in the order in which a condition is searched for them. -/
def all : List Comparison := [eq, ne, ge, le, gt, lt]

/-- The sign of a comparison. -/
def sign : Comparison → String
  | eq => "==" | ne => "!=" | ge => ">=" | le => "<=" | gt => ">" | lt => "<"

/-- Whether a comparison holds. -/
def holds : Comparison → Int → Int → Bool
  | eq, a, b => a = b
  | ne, a, b => a ≠ b
  | ge, a, b => b ≤ a
  | le, a, b => a ≤ b
  | gt, a, b => b < a
  | lt, a, b => a < b

end Comparison

/-- A comparison between two operands. -/
structure BreakCondition where
  left : String
  comparison : Comparison
  right : String
  deriving Repr, DecidableEq

/-- A text that is no condition. -/
structure InvalidCondition where
  expression : String
  deriving Repr, DecidableEq

/-- What is wrong with a text that is no condition. -/
def InvalidCondition.message (e : InvalidCondition) : String :=
  "invalid condition '" ++ e.expression ++ "': expected 'operand operator operand' with one of " ++
    ", ".intercalate (Comparison.all.map Comparison.sign)

namespace BreakCondition

/-- What stands before and after the first occurrence of a piece. -/
def splitAround? (piece : List Char) : List Char → Option (List Char × List Char)
  | [] => none
  | c :: rest =>
    if piece.isPrefixOf (c :: rest) then some ([], (c :: rest).drop piece.length)
    else (splitAround? piece rest).map fun (before, after) => (c :: before, after)

/-- Reads a condition with a given comparison at the first occurrence of its sign. -/
def with? (text : List Char) (comparison : Comparison) : Option BreakCondition :=
  match splitAround? comparison.sign.toList text with
  | some (before, after) =>
    let left := trim before
    let right := trim after
    if left ≠ [] ∧ right ≠ [] then some ⟨String.ofList left, comparison, String.ofList right⟩
    else none
  | none => none

/-- Reads a condition. -/
def parse (expression : String) : Except InvalidCondition BreakCondition :=
  match Comparison.all.findSome? (with? (trim expression.toList)) with
  | some condition => .ok condition
  | none => .error ⟨expression⟩

/-- A condition as text. -/
def text (c : BreakCondition) : String := c.left ++ " " ++ c.comparison.sign ++ " " ++ c.right

/-- The name of an operand, with the ending `_PRIME` written as an apostrophe. -/
def operandName (operand : List Char) : List Char :=
  let name := upper operand
  let ending := "_PRIME".toList
  if ending.isSuffixOf name then name.take (name.length - ending.length) ++ ['\''] else name

/-- The value of a symbol in a running program: what has been written at its address, or else
the symbol's own value. -/
def symbolValue? (m : Machine) (symbols : Symbols) (name : String) : Option Int :=
  match symbols.get? name with
  | some value =>
    match m.memory.get? (word value) with
    | some b => some b
    | none => some value
  | none => none

/-- The value of an operand. -/
def operandValue? (m : Machine) (symbols : Symbols) (operand : String) : Option Int :=
  match trim operand.toList with
  | [] => none
  | cs =>
    let name := String.ofList (operandName cs)
    match m.readRegister name with
    | .ok value => some value
    | .error _ =>
      match Expr.literal? cs with
      | some value => some value
      | none => symbolValue? m symbols name

/-- Whether a condition holds. -/
def holds (c : BreakCondition) (m : Machine) (symbols : Symbols) : Bool :=
  match operandValue? m symbols c.left, operandValue? m symbols c.right with
  | some left, some right => c.comparison.holds left right
  | _, _ => false

end BreakCondition

/-- A breakpoint of a line. -/
structure Breakpoint where
  condition : Option BreakCondition := none
  enabled : Bool := true
  deriving Repr, DecidableEq

/-- Breakpoints by line number. -/
abbrev Breakpoints := Table Int Breakpoint

namespace Breakpoints

/-- Sets the breakpoint of a line, without a condition if the text of one is absent or empty. -/
def add (points : Breakpoints) (line : Int) (condition : Option String) :
    Except InvalidCondition Breakpoints :=
  match condition.filter (· ≠ "") with
  | none => .ok (points.insert line {})
  | some text => (BreakCondition.parse text).map fun c => points.insert line { condition := some c }

/-- Turns the breakpoint of a line on or off. -/
def enable (points : Breakpoints) (line : Int) (enabled : Bool) : Breakpoints :=
  match points.get? line with
  | some point => points.insert line { point with enabled }
  | none => points

/-- Whether a walk stops at a line. -/
def stops (points : Breakpoints) (symbols : Symbols) (line : Int) (m : Machine) : Bool :=
  match points.get? line with
  | some point => point.enabled && point.condition.all fun c => c.holds m symbols
  | none => false

end Breakpoints

end Z80Workbench
