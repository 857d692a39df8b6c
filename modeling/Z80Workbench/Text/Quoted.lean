import Z80Workbench.Text.Blank
import Z80Workbench.Text.Hex

/-!
# Z80Workbench.Text.Quoted

A text written between quotes, with escapes for what cannot be shown. Single quotes are used
unless the text holds one and no double quote. A message with little room shows the start of
such a text.
-/

namespace Z80Workbench.Text

/-- Lower-case hexadecimal digits in a fixed width. -/
def lowerHexPadded (width n : Nat) : List Char :=
  padStart width '0' ((hexDigits n).map Char.toLower)

/-- One character between quotes of the given kind. -/
def quotedChar (quote c : Char) : List Char :=
  if c = quote ∨ c = '\\' then ['\\', c]
  else if c = '\n' then ['\\', 'n']
  else if c = '\r' then ['\\', 'r']
  else if c = '\t' then ['\\', 't']
  else if c = ' ' then [c]
  else if c.toNat < 32 ∨ c.toNat = 127 ∨ (128 ≤ c.toNat ∧ c.toNat ≤ 160) ∨ c.toNat = 173 then
    ['\\', 'x'] ++ lowerHexPadded 2 c.toNat
  else if isBlank c then ['\\', 'u'] ++ lowerHexPadded 4 c.toNat
  else [c]

/-- A text between quotes. -/
def quoted (s : String) : String :=
  let cs := s.toList
  let quote := if cs.contains '\'' && !cs.contains '"' then '"' else '\''
  String.ofList (quote :: cs.flatMap (quotedChar quote) ++ [quote])

/-- The start of a text between quotes, of a length at most. The closing quote is missing where
the text goes on. -/
def quotedStart (length : Nat) (s : String) : String :=
  String.ofList ((quoted s).toList.take length)

/-- A start is no longer than allowed. -/
theorem length_quotedStart_le (length : Nat) (s : String) :
    (quotedStart length s).length ≤ length := by
  simp only [quotedStart, String.length_ofList, List.length_take]
  exact Nat.min_le_left _ _

/-- A quoted text that is short enough is its own start. -/
theorem quotedStart_of_length_le {length : Nat} {s : String} (h : (quoted s).length ≤ length) :
    quotedStart length s = quoted s := by
  rw [quotedStart, List.take_of_length_le (by rwa [String.length_toList]), String.ofList_toList]

end Z80Workbench.Text
