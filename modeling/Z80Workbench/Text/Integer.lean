import Z80Workbench.Text.Blank
import Z80Workbench.Text.Digit

/-!
# Z80Workbench.Text.Integer

Integers as settings and command lines give them: white space around, where the information
separators do not count as such, an optional sign, digits of any script, and single underscores
between digits. With a base mark, `0x`, `0o` and `0b`
choose base 16, 8 and 2, and a decimal number other than zero has no leading zero.
-/

namespace Z80Workbench.Text

/-- The value of a digit or Latin letter in bases up to 36. -/
def digitValue? (c : Char) : Option Nat :=
  match decimalValue? c with
  | some n => some n
  | none =>
    if 'a' ≤ c ∧ c ≤ 'z' then some (c.toNat - 87)
    else if 'A' ≤ c ∧ c ≤ 'Z' then some (c.toNat - 55)
    else none

/-- The value of a digit in a base. -/
def digitIn? (base : Nat) (c : Char) : Option Nat :=
  (digitValue? c).filter (· < base)

/-- Reads what follows a digit: more digits, each behind one underscore at most. -/
def moreDigits? (base acc : Nat) : List Char → Option Nat
  | [] => some acc
  | '_' :: c :: rest =>
    match digitIn? base c with
    | some d => moreDigits? base (acc * base + d) rest
    | none => none
  | c :: rest =>
    match digitIn? base c with
    | some d => moreDigits? base (acc * base + d) rest
    | none => none

/-- Reads a numeral without a sign. -/
def numeral? (base : Nat) : List Char → Option Nat
  | [] => none
  | c :: rest => (digitIn? base c).bind (moreDigits? base · rest)

/-- Reads a numeral behind a base mark, where one underscore may come first. -/
def markedNumeral? (base : Nat) : List Char → Option Nat
  | '_' :: rest => numeral? base rest
  | cs => numeral? base cs

/-- Reads a numeral that may carry a base mark. -/
def anyBaseNumeral? (cs : List Char) : Option Nat :=
  match cs with
  | c :: m :: rest =>
    if decimalValue? c = some 0 then
      match m.toLower with
      | 'x' => markedNumeral? 16 rest
      | 'o' => markedNumeral? 8 rest
      | 'b' => markedNumeral? 2 rest
      | _ => (numeral? 10 cs).filter (· = 0)
    else numeral? 10 cs
  | _ => numeral? 10 cs

/-- White space that may stand around a number. -/
def isNumberBlank (c : Char) : Bool := isBlank c && !(0x1C ≤ c.toNat && c.toNat ≤ 0x1F)

/-- A text without the white space around a number. -/
def trimNumber (cs : List Char) : List Char :=
  ((cs.dropWhile isNumberBlank).reverse.dropWhile isNumberBlank).reverse

/-- Reads an optional sign and then a numeral. -/
def signed? (magnitude? : List Char → Option Nat) (cs : List Char) : Option Int :=
  match trimNumber cs with
  | '-' :: rest => (magnitude? rest).map fun n => -(n : Int)
  | '+' :: rest => (magnitude? rest).map Int.ofNat
  | rest => (magnitude? rest).map Int.ofNat

/-- Reads a decimal integer. -/
def decimalInteger? (s : String) : Option Int :=
  signed? (numeral? 10) s.toList

/-- Reads an integer that may carry a base mark. -/
def markedInteger? (s : String) : Option Int :=
  signed? anyBaseNumeral? s.toList

end Z80Workbench.Text
