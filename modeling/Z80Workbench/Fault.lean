import Z80Workbench.Expr.Basic
import Z80Workbench.Source.Line

/-!
# Z80Workbench.Fault

Faults of the work on a source.

Bad source is answered by diagnostics. A fault is something else: the work takes the first of
nothing, or asks a table for what it does not hold, and cannot go on. Texts are read here with
every such step in sight; without faults this is the reading of `Expr.read` and `parseLine?`.
-/

namespace Z80Workbench

open Text

/-- A step that finds nothing to go on with. -/
inductive Fault where
  /-- The first word of a text without words. -/
  | noWord
  /-- The first character of an empty text. -/
  | noCharacter
  /-- The number that a text denotes in a base, where it is no row of digits. -/
  | noNumber (base : Nat) (text : String)
  /-- The first operand of a directive without operands. -/
  | noOperand
  /-- The opcode of an index register whose name is in no table. -/
  | noRegister (name : String)
  /-- A byte of machine code that is none. -/
  | noByte (value : Nat)
  /-- The content of an address that the image does not hold. -/
  | noCell (address : Nat)
  deriving Repr, DecidableEq

/-- The first member of a list. -/
def Fault.first {α : Type} (fault : Fault) : List α → Except Fault α
  | [] => .error fault
  | x :: _ => .ok x

/-! ## Expressions -/

namespace Expr

/-- A digit in the given base. -/
def isDigitOf (base : Nat) (c : Char) : Bool := (digitValue? c).any (· < base)

/-- The number that a row of digits denotes. -/
def checkedNumber (base : Nat) (cs : List Char) : Except Fault Nat :=
  match digits? base cs with
  | some n => .ok n
  | none => .error (.noNumber base (String.ofList cs))

/-- The number that a text denotes if it is a row of digits. -/
def checkedDigits? (base : Nat) (cs : List Char) : Except Fault (Option Nat) :=
  if cs ≠ [] ∧ cs.all (isDigitOf base) then do return some (← checkedNumber base cs)
  else .ok none

/-- Reads a numeral that starts with a digit, in capital letters. -/
def checkedDigitInitial? (cs : List Char) : Except Fault (Option Nat) :=
  if cs.getLast? = some 'H' then checkedDigits? 16 cs.dropLast
  else if cs.take 2 = ['0', 'B'] ∧ 2 < cs.length ∧ (cs.drop 2).all (isDigitOf 2) then do
    return some (← checkedNumber 2 (cs.drop 2))
  else if cs.getLast? = some 'B' ∧ cs.dropLast.all (isDigitOf 2) then do
    return some (← checkedNumber 2 cs.dropLast)
  else checkedDigits? 10 cs

/-- Reads a numeral in capital letters, by the mark in front of it or by its first character. -/
def checkedNumeral? : List Char → Except Fault (Option Nat)
  | '0' :: 'X' :: rest => checkedDigits? 16 rest
  | '&' :: 'H' :: rest => checkedDigits? 16 rest
  | cs => do
    let c ← Fault.noCharacter.first cs
    if c = '#' ∨ c = '$' then checkedDigits? 16 cs.tail
    else if c = '%' then checkedDigits? 2 cs.tail
    else if isDigitSign c then checkedDigitInitial? cs
    else return none

/-- The number that a literal denotes. -/
def checkedLiteral? (text : List Char) : Except Fault (Option Nat) :=
  let trimmed := trim text
  if trimmed = [] then .ok none
  else
    match character? trimmed with
    | some n => .ok (some n)
    | none => checkedNumeral? (upper trimmed)

/-- Reads one literal or name. -/
def checkedAtom (text : List Char) : Except Fault Atom := do
  match ← checkedLiteral? text with
  | some n => return .number n
  | none =>
    match upper (trim text) with
    | [] => return .blank
    | cs => return .name (String.ofList cs)

/-- Reads a product. The first character tells whether a star is part of a literal. -/
def checkedFactors (text : List Char) : Except Fault (List Atom) := do
  if text.contains '*' then
    if isQuote (← Fault.noCharacter.first text) then return [← checkedAtom text]
    else (splitAt '*' text).mapM checkedAtom
  else return [← checkedAtom text]

/-- Reads a term. -/
def checkedTerm (piece : Piece) : Except Fault Term := do
  return ⟨piece.negative, ← checkedFactors (trim piece.text)⟩

/-- Reads the terms of a sum. -/
def checkedTerms (negative : Bool) : List Piece → Except Fault (Option (List Term))
  | [] => .ok none
  | piece :: rest =>
    if trim piece.text = [] then checkedTerms (negative ^^ piece.negative) rest
    else if rest.all (trim ·.text ≠ []) then do
      let first ← checkedTerm { piece with negative := negative ^^ piece.negative }
      return some (first :: (← rest.mapM checkedTerm))
    else .ok none

/-- Reads an expression. -/
def checkedRead (text : List Char) : Except Fault Expr := do
  let whole ← checkedAtom text
  let terms ← checkedTerms false (pieces none false text)
  return ⟨String.ofList text, whole, terms⟩

end Expr

/-! ## Source lines -/

namespace Source

/-- The first word of a text, and the rest, trimmed. -/
def checkedHeadWord (text : List Char) : Except Fault (List Char × List Char) :=
  match trimStart text with
  | [] => .error .noWord
  | cs => .ok (headWord cs)

/-- Reads what follows the colon labels of a line. -/
def checkedStatement (labelled : Bool) (cs : List Char) : Except Fault Statement := do
  if cs = [] then return ⟨none, none, []⟩
  let (first, rest) ← checkedHeadWord cs
  let operation := operationOf first
  if operation.isKnown then return ⟨none, some operation, rest⟩
  else if rest ≠ [] then
    let (second, more) ← checkedHeadWord rest
    let behind := operationOf second
    if behind.isKnown then return ⟨some first, some behind, more⟩
    else return ⟨none, some operation, rest⟩
  else if labelled then return ⟨none, some operation, []⟩
  else return ⟨some first, none, []⟩

/-- Reads a line; blank lines and comments are none. -/
def checkedLine? (number : Nat) (text : String) : Except Fault (Option SourceLine) :=
  match stripComment text.toList with
  | [] => .ok none
  | cs => do
    let (labels, rest) := colonLabels cs
    let found ← checkedStatement (labels ≠ []) rest
    return some
      { number
        text
        labels := (labels ++ found.label.toList).map fun label => String.ofList (upper label)
        operation := found.operation
        args := String.ofList found.args }

/-- Reads all lines of a source text, numbered from one. -/
def checkedParse (text : String) : Except Fault (List SourceLine) := do
  let lines ← ((linesOf text).zipIdx 1).mapM fun (text, number) => checkedLine? number text
  return lines.filterMap id

end Source

end Z80Workbench
