/-!
# Z80Workbench.Text.Hex

Hexadecimal numerals in capital letters, and padding of columns. A negative number is written
as its sign and its magnitude, and the sign takes one column of the width.
-/

namespace Z80Workbench.Text

/-- The hexadecimal digit of a number below sixteen. -/
def hexDigit (n : Nat) : Char :=
  if n < 10 then Char.ofNat (48 + n) else Char.ofNat (55 + n)

/-- The hexadecimal digits of a number, without leading zeros. -/
def hexDigits (n : Nat) : List Char :=
  if n < 16 then [hexDigit n] else hexDigits (n / 16) ++ [hexDigit (n % 16)]

/-- Fills up to a width in front. -/
def padStart (width : Nat) (fill : Char) (cs : List Char) : List Char :=
  List.replicate (width - cs.length) fill ++ cs

/-- Fills up to a width with spaces at the end. -/
def padEnd (width : Nat) (s : String) : String :=
  s ++ String.ofList (List.replicate (width - s.length) ' ')

/-- A number in at least `width` columns, filled with spaces in front. -/
def alignRight (width : Nat) (n : Nat) : String :=
  String.ofList (padStart width ' ' (toString n).toList)

/-- A hexadecimal numeral. -/
def hex (n : Int) : String :=
  String.ofList ((if n < 0 then ['-'] else []) ++ hexDigits n.natAbs)

/-- A hexadecimal numeral in at least `width` columns, filled with zeros. -/
def hexPadded (width : Nat) (n : Int) : String :=
  String.ofList <|
    if n < 0 then '-' :: padStart (width - 1) '0' (hexDigits n.natAbs)
    else padStart width '0' (hexDigits n.natAbs)

/-- A hexadecimal numeral as listings write it, after a dollar sign. -/
def dollarHex (n : Int) : String :=
  "$" ++ hex n

end Z80Workbench.Text
