import Z80Workbench.Expr.Basic
import Z80Workbench.Isa.Register
import Z80Workbench.Source.Quote

/-!
# Z80Workbench.Isa.Operand

Operands and their addressing modes, told apart by spelling alone: no symbol is looked up.

```
A  HL  AF'        a register or pair
10  LABEL+1       a value
(HL)  (C)         the byte, or port, that a register points to
(IX+d)  (IY-d)    the byte beside an index register
(nn)              the byte, or port, at an address
```
-/

namespace Z80Workbench

/-- How an operand is addressed. An index register may stand without an offset. -/
inductive Mode where
  | reg8 (register : Reg8)
  | reg16 (p : Pair)
  | immediate (value : Expr)
  | indirect (p : Pointer)
  | indexed (x : Index) (offset : Option Expr)
  | absolute (address : Expr)
  deriving Repr, DecidableEq

/-- An operand as written, and its addressing mode. -/
structure Operand where
  text : String
  mode : Mode
  deriving Repr, DecidableEq

namespace Mode

/-- The name of the kind of an addressing mode. -/
def kind : Mode → String
  | reg8 _ => "reg8"
  | reg16 _ => "reg16"
  | immediate _ => "immediate"
  | indirect _ => "indirect"
  | indexed _ _ => "indexed"
  | absolute _ => "absolute"

/-- Whether the mode addresses memory, or a port. -/
def isMemory : Mode → Bool
  | indirect _ | indexed _ _ | absolute _ => true
  | _ => false

/-- The offset that an index register without one has. -/
def zeroOffset : Expr := Expr.ofString "0"

/-- The expression in an operand: a value, an address or an offset. -/
def expr? : Mode → Option Expr
  | immediate e => some e
  | absolute e => some e
  | indexed _ offset => some (offset.getD zeroOffset)
  | _ => none

/-- The name of the register in an operand. -/
def registerName? : Mode → Option String
  | reg8 register => some register.name
  | reg16 p => some p.name
  | indirect p => some p.name
  | indexed x _ => some x.name
  | _ => none

/-- The pair that an operand names, in parentheses or not. -/
def pair? : Mode → Option Pair
  | reg16 p => some p
  | indirect p => p.pair?
  | indexed x _ => some (.index x)
  | _ => none

end Mode

namespace Operand

open Text Source

/-- The depth of parentheses after each character outside quotes stays positive up to the last
character of a text and is zero there. `depth` parentheses are open in front of it. -/
def closesAtEnd (depth : Int) : List Marked → Bool
  | [] => depth = 0
  | ⟨c, outside⟩ :: rest =>
    if outside && c = '(' then closesAtEnd (depth + 1) rest
    else if outside && c = ')' then
      if depth = 1 ∧ rest ≠ [] then false else closesAtEnd (depth - 1) rest
    else closesAtEnd depth rest

/-- What stands between parentheses that enclose a whole text. -/
def enclosed? (text : List Char) : Option (List Char) :=
  if text.head? = some '(' ∧ text.getLast? = some ')' ∧ closesAtEnd 0 (marks text) then
    some (trim (text.drop 1).dropLast)
  else none

/-- The letter I in either case, with a dot or without one. -/
def isLetterI (c : Char) : Bool := c = 'I' || c = 'i' || c = 'ı' || c = 'İ'

/-- Reads an index register, alone or with a signed offset, from the text in parentheses. -/
def indexed? : List Char → Option Mode
  | i :: n :: rest =>
    let index? : Option Index :=
      if n = 'X' ∨ n = 'x' then some .ix else if n = 'Y' ∨ n = 'y' then some .iy else none
    match isLetterI i, index?, trimStart rest with
    | true, some x, [] => some (.indexed x none)
    | true, some x, sign :: after =>
      let offset := trimStart after
      if (sign = '+' ∨ sign = '-') ∧ offset ≠ [] ∧ '\n' ∉ offset then
        some (.indexed x (some (Expr.read (sign :: trim offset))))
      else none
    | _, _, _ => none
  | _ => none

/-- The addressing mode of the text in parentheses. -/
def modeInside (inner : List Char) : Mode :=
  match Pointer.ofName? (String.ofList (upper inner)) with
  | some p => .indirect p
  | none => (indexed? inner).getD (.absolute (Expr.read inner))

/-- The addressing mode of a trimmed text. -/
def modeOf (text : List Char) : Mode :=
  let name := String.ofList (upper text)
  match Reg8.ofName? name with
  | some register => .reg8 register
  | none =>
    match Pair.ofName? name with
    | some p => .reg16 p
    | none =>
      match enclosed? text with
      | some inner => modeInside inner
      | none => .immediate (Expr.read text)

/-- Reads one operand. -/
def parse (text : List Char) : Operand :=
  let trimmed := trim text
  ⟨String.ofList trimmed, modeOf trimmed⟩

/-- The name of the index register in an operand, as it is spelled, in capital letters. The letter
I with a dot is a capital letter of its own. -/
def indexName? (o : Operand) : Option String :=
  match o.mode, enclosed? o.text.toList with
  | .indexed .ix _, some ('İ' :: _) => some "İX"
  | .indexed .iy _, some ('İ' :: _) => some "İY"
  | .indexed x _, _ => some x.name
  | _, _ => none

/-- The name of the register in an operand, as it is spelled. -/
def registerName? (o : Operand) : Option String := o.indexName?.or o.mode.registerName?

end Operand

end Z80Workbench
