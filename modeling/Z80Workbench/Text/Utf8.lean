/-!
# Z80Workbench.Text.Utf8

Reading bytes as UTF-8 text. A byte sequence that no valid character starts with becomes one
replacement character, and reading goes on at the first byte that does not fit.
-/

namespace Z80Workbench.Text

/-- The character that stands for unreadable bytes. -/
def replacementChar : Char := Char.ofNat 0xFFFD

/-- A decoder in the middle of its input: the text read so far, latest first, and the character
in progress with the number of bytes it still needs and the range of the next one. -/
structure Utf8Scan where
  output : List Char
  code : Nat
  missing : Nat
  low : Nat
  high : Nat

namespace Utf8Scan

/-- Nothing read yet. -/
def start : Utf8Scan := ⟨[], 0, 0, 0x80, 0xBF⟩

/-- Writes a character and expects a new one. -/
def emit (scan : Utf8Scan) (c : Char) : Utf8Scan :=
  { start with output := c :: scan.output }

/-- Reads the first byte of a character. The narrowed ranges of the second byte keep out
overlong forms, surrogates and numbers past the last code point. -/
def first (scan : Utf8Scan) (b : Nat) : Utf8Scan :=
  if b < 0x80 then scan.emit (Char.ofNat b)
  else if 0xC2 ≤ b ∧ b ≤ 0xDF then ⟨scan.output, b % 32, 1, 0x80, 0xBF⟩
  else if b = 0xE0 then ⟨scan.output, 0, 2, 0xA0, 0xBF⟩
  else if b = 0xED then ⟨scan.output, 13, 2, 0x80, 0x9F⟩
  else if 0xE1 ≤ b ∧ b ≤ 0xEF then ⟨scan.output, b % 16, 2, 0x80, 0xBF⟩
  else if b = 0xF0 then ⟨scan.output, 0, 3, 0x90, 0xBF⟩
  else if 0xF1 ≤ b ∧ b ≤ 0xF3 then ⟨scan.output, b % 8, 3, 0x80, 0xBF⟩
  else if b = 0xF4 then ⟨scan.output, 4, 3, 0x80, 0x8F⟩
  else scan.emit replacementChar

/-- Reads the next byte. -/
def next (scan : Utf8Scan) (b : Nat) : Utf8Scan :=
  match scan.missing with
  | 0 => scan.first b
  | missing + 1 =>
    if scan.low ≤ b ∧ b ≤ scan.high then
      let code := scan.code * 64 + b % 64
      if missing = 0 then scan.emit (Char.ofNat code)
      else ⟨scan.output, code, missing, 0x80, 0xBF⟩
    else (scan.emit replacementChar).first b

/-- The text read, with a replacement character for an unfinished end. -/
def finish (scan : Utf8Scan) : List Char :=
  (if scan.missing = 0 then scan.output else replacementChar :: scan.output).reverse

end Utf8Scan

/-- Reads bytes as text. -/
def decodeUtf8 (bytes : List Nat) : List Char :=
  (bytes.foldl Utf8Scan.next Utf8Scan.start).finish

end Z80Workbench.Text
