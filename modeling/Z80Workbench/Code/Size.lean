import Z80Workbench.Code.Form

/-!
# Z80Workbench.Code.Size

The bytes that a line takes. Data directives are sized exactly. Instructions have the size of
their code; one that cannot be encoded has a size estimated from its word and its text.
-/

namespace Z80Workbench

open Text Source

/-- The bytes of one operand of a byte directive: one for a value, one for each character of a
quoted text. -/
def byteItemSize (token : List Char) : Nat :=
  match quotedText? token with
  | some cs => cs.length
  | none => 1

/-- The bytes of the operands of a byte directive. -/
def byteItemsSize : List (List Char) → Nat
  | [] => 0
  | token :: rest => byteItemSize token + byteItemsSize rest

namespace Directive

/-- The bytes of a directive. Space whose size has no value is none. -/
def size (d : Directive) (symbols : Symbols) (args : List Char) : Nat :=
  let operands := splitData args
  if d.storesBytes then byteItemsSize operands
  else if d.storesWords then 2 * operands.length
  else if d.reservesSpace then
    ((operands.head?.map Expr.read).bind (·.value? { symbols })).getD 0
  else 0

end Directive

namespace Mnemonic

/-- Characters of the words that count as addresses in an estimate. -/
def isAddressChar (c : Char) : Bool :=
  c.isDigit || ('A' ≤ c && c ≤ 'F') || c = 'H' || c = '$' || c = '#'

/-- The estimated bytes of a load with two operands, in capital letters: three if a word looks
like an address, or if parentheses hold something else than a pair. -/
def estimateLoad (args : List Char) : Nat :=
  let spaced := args.map fun c => if c = ',' ∨ c = '(' ∨ c = ')' then ' ' else c
  let address := (words spaced).any fun w => 3 ≤ w.length && w.all isAddressChar
  let byPair := holdsPiece "(HL)".toList args || holdsPiece "(BC)".toList args ||
    holdsPiece "(DE)".toList args
  if address || (args.contains '(' && !byPair) then 3 else 2

/-- The estimated bytes of an instruction. -/
def estimate (m : Mnemonic) (args : List Char) : Nat :=
  match m with
  | jr | djnz => 2
  | jp | call => 3
  | ld => if args.contains ',' then estimateLoad (upper args) else 1
  | im | output | input => 2
  | _ => 1

end Mnemonic

namespace Operation

/-- The bytes of a data directive; nothing for any other operation. -/
def dataSize (operation : Operation) (symbols : Symbols) (args : List Char) : Nat :=
  match operation with
  | directive d => d.size symbols args
  | _ => 0

/-- The bytes of an operation as its word and operand text suggest them. -/
def estimate (operation : Operation) (symbols : Symbols) (args : List Char) : Nat :=
  match operation with
  | mnemonic m => m.estimate args
  | directive d => d.size symbols args
  | unknown _ => 0

/-- The bytes that an operation takes. -/
def size (operation : Operation) (symbols : Symbols) (args : List Char) : Nat :=
  match operation with
  | mnemonic m =>
    ((Instruction.ofArgs operation args).size? symbols).getD (m.estimate args)
  | _ => operation.estimate symbols args

end Operation

end Z80Workbench
