import Z80Workbench.Diagnostic
import Z80Workbench.Expr.Basic
import Z80Workbench.Source.Line
import Z80Workbench.Text.Similar

/-!
# Z80Workbench.Code.Field

Fields of machine code. An instruction's code is a row of fields: fixed opcode bytes, and bytes
that come from the value of an operand expression. How many bytes a field takes is fixed by
its kind, whatever the value.
-/

namespace Z80Workbench

/-- A field of machine code. -/
inductive Field where
  | opcode (value : Nat)
  | byte (value : Expr)
  | word (value : Expr)
  | offset (value : Expr)
  | relative (target : Expr)
  | bit (base : Nat) (number : Expr)
  | restart (vector : Expr)
  | interruptMode (mode : Expr)
  deriving Repr, DecidableEq

/-- What the fields of an instruction are filled from: a scope for names, the address of the
instruction if it is known, and whether a name without a value counts as zero. -/
structure Context where
  scope : Expr.Scope
  address : Option Nat := none
  lenient : Bool := false

namespace Context

open Text

/-- Why an expression has no value: a name that nothing defines, with names like it, or else a
text that is no expression. -/
def unresolved (ctx : Context) (e : Expr) : Cause :=
  let cs := trim e.text.toList
  let name := String.ofList cs
  if Source.isIdentifier cs then
    .undefinedSymbol name (Similar.closest 3 (String.ofList (upper cs)) ctx.scope.symbols.keys)
  else .unresolved name

/-- The value of an expression. -/
def value (ctx : Context) (e : Expr) : Except Cause Nat :=
  match e.value? ctx.scope with
  | some n => .ok n
  | none => if ctx.lenient then .ok 0 else .error (ctx.unresolved e)

end Context

namespace Field

/-- The number of bytes of a field. -/
def width : Field → Nat
  | word _ => 2
  | _ => 1

/-- Whether a signed distance fits a byte. -/
def fitsByte (n : Int) : Bool := -128 ≤ n && n ≤ 127

/-- The distance from the end of a two-byte instruction at an address to a target, the short
way round the address space. -/
def distance (address target : Nat) : Int := signed 16 (target - (address + 2))

/-- The bytes of a relative branch. Its target need not have a value when it need not be
right: in lenient filling, or while the address is unknown. -/
def fillRelative (ctx : Context) (target : Expr) : Except Cause (List Nat) :=
  match target.value? ctx.scope, ctx.address with
  | none, _ => if ctx.lenient then .ok [0] else .error (ctx.unresolved target)
  | some _, none => .ok [0]
  | some n, some address =>
    let d := distance address n
    if fitsByte d then .ok [Z80Workbench.byte d] else .error (.branchRange target.text d)

/-- The bytes of a field. -/
def fill (ctx : Context) : Field → Except Cause (List Nat)
  | opcode n => .ok [n]
  | byte e => (ctx.value e).map fun n => [lowByte n]
  | word e => (ctx.value e).map wordBytes
  | offset e => do
    let d := signed 16 (← ctx.value e)
    if fitsByte d then .ok [Z80Workbench.byte d] else .error (.offsetRange d)
  | relative e => fillRelative ctx e
  | bit base e => do
    let n ← ctx.value e
    if n < 8 then .ok [base + 8 * n] else .error (.bitRange n)
  | restart e => do
    let n ← ctx.value e
    if n < 0x40 ∧ n % 8 = 0 then .ok [0xC7 + n] else .error (.restartVector n)
  | interruptMode e => do
    match ← ctx.value e with
    | 0 => .ok [0x46]
    | 1 => .ok [0x56]
    | 2 => .ok [0x5E]
    | n => .error (.interruptMode n)

/-- The bytes of a row of fields. The first field that cannot be filled decides the error. -/
def fillAll (ctx : Context) : List Field → Except Cause (List Nat)
  | [] => .ok []
  | field :: rest => do
    let bytes ← field.fill ctx
    return bytes ++ (← fillAll ctx rest)

/-- The number of bytes of a row of fields. -/
def totalWidth : List Field → Nat
  | [] => 0
  | field :: rest => field.width + totalWidth rest

end Field

end Z80Workbench
