import Z80Workbench.Text.Blank
import Z80Workbench.Text.Digit
import Z80Workbench.Text.Upper

/-!
# Z80Workbench.Expr.Literal

Numeric and character literals.

```
'A' "A"                   the code of one character
#FF $FF 0xFF &HFF 0FFH    hexadecimal; the suffixed form starts with a digit
%1010 0b1010 1010B        binary
42                        decimal
```

Letters count in either case. A suffixed form has to start with a digit, or a label such as
`BEACH` would be a number.
-/

namespace Z80Workbench.Expr

open Text

/-- A quotation mark of either kind. -/
def isQuote (c : Char) : Bool := c = '\'' || c = '"'

/-- The value of a hexadecimal digit in capital letters. -/
def digitValue? (c : Char) : Option Nat :=
  if '0' ≤ c ∧ c ≤ '9' then some (c.toNat - 48)
  else if 'A' ≤ c ∧ c ≤ 'F' then some (c.toNat - 55)
  else none

/-- Reads the digits that follow a number read so far. -/
def digitsFrom? (base acc : Nat) : List Char → Option Nat
  | [] => some acc
  | c :: rest =>
    match digitValue? c with
    | some d => if d < base then digitsFrom? base (acc * base + d) rest else none
    | none => none

/-- The number that a non-empty row of digits denotes. -/
def digits? (base : Nat) (cs : List Char) : Option Nat :=
  if cs = [] then none else digitsFrom? base 0 cs

/-- The code of a character between two equal quotation marks. -/
def character? : List Char → Option Nat
  | [opening, c, closing] => if isQuote opening ∧ closing = opening then some c.toNat else none
  | _ => none

/-- Reads a numeral that starts with a digit, in capital letters. A base mark in front is
tried before a suffix, so `0B` alone is the binary numeral zero. -/
def digitInitial? (cs : List Char) : Option Nat :=
  if cs.getLast? = some 'H' then digits? 16 cs.dropLast
  else
    let marked :=
      match cs with
      | '0' :: 'B' :: rest => digits? 2 rest
      | _ => none
    let suffixed := if cs.getLast? = some 'B' then digits? 2 cs.dropLast else none
    (marked.or suffixed).or (digits? 10 cs)

/-- Reads a numeral in capital letters. -/
def numeral? : List Char → Option Nat
  | [] => none
  | '0' :: 'X' :: rest => digits? 16 rest
  | '&' :: 'H' :: rest => digits? 16 rest
  | '#' :: rest => digits? 16 rest
  | '$' :: rest => digits? 16 rest
  | '%' :: rest => digits? 2 rest
  | c :: rest => if isDigitSign c then digitInitial? (c :: rest) else none

/-- The number that a literal denotes. -/
def literal? (text : List Char) : Option Nat :=
  let trimmed := trim text
  (character? trimmed).or (numeral? (upper trimmed))

@[simp] theorem digits?_nil (base : Nat) : digits? base [] = none := rfl

/-- A number denoted by digits grows with each further digit. -/
theorem digitsFrom?_concat (base acc : Nat) (cs : List Char) (c : Char) :
    digitsFrom? base acc (cs ++ [c]) =
      (digitsFrom? base acc cs).bind fun n =>
        (digitValue? c).bind fun d => if d < base then some (n * base + d) else none := by
  induction cs generalizing acc with
  | nil => cases h : digitValue? c <;> simp [digitsFrom?, h]
  | cons b rest ih =>
    cases h : digitValue? b with
    | none => simp [digitsFrom?, h]
    | some d =>
      by_cases hd : d < base
      · simp [digitsFrom?, h, hd, ih]
      · simp [digitsFrom?, h, hd]

end Z80Workbench.Expr
