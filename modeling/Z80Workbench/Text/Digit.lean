/-!
# Z80Workbench.Text.Digit

Digits of every script. A *decimal digit* stands for a value in a positional number; a *digit
sign* also counts superscripts, circled numbers and the like, which have no such use.
-/

namespace Z80Workbench.Text

/-- Code points of the digit zero of each script above ASCII; its nine successors follow it. -/
def decimalZeros : Array Nat := #[
  1632, 1776, 1984, 2406, 2534, 2662, 2790, 2918, 3046, 3174, 3302, 3430, 3558, 3664, 3792, 3872,
  4160, 4240, 6112, 6160, 6470, 6608, 6784, 6800, 6992, 7088, 7232, 7248, 42528, 43216, 43264,
  43472, 43504, 43600, 44016, 65296, 66720, 68912, 69734, 69872, 69942, 70096, 70384, 70736,
  70864, 71248, 71360, 71472, 71904, 72016, 72784, 73040, 73120, 92768, 92864, 93008, 120782,
  120792, 120802, 120812, 120822, 123200, 123632, 125264, 130032]

/-- Inclusive code point ranges of the digit signs that are not decimal digits. -/
def digitSignRanges : Array (Nat × Nat) := #[
  (178, 179), (185, 185), (4969, 4977), (6618, 6618), (8304, 8304), (8308, 8313), (8320, 8329),
  (9312, 9320), (9332, 9340), (9352, 9360), (9450, 9450), (9461, 9469), (9471, 9471),
  (10102, 10110), (10112, 10120), (10122, 10130), (68160, 68163), (69216, 69224), (69714, 69722),
  (127232, 127242)]

/-- The value of a decimal digit of any script. -/
def decimalValue? (c : Char) : Option Nat :=
  if c.toNat < 128 then
    if c.isDigit then some (c.toNat - 48) else none
  else
    (decimalZeros.find? fun start => start ≤ c.toNat && c.toNat < start + 10).map (c.toNat - ·)

/-- A decimal digit of any script or another digit sign. -/
def isDigitSign (c : Char) : Bool :=
  (decimalValue? c).isSome ||
    digitSignRanges.any fun r => r.1 ≤ c.toNat && c.toNat ≤ r.2

/-- A decimal digit is worth less than ten. -/
theorem decimalValue?_lt {c : Char} {n : Nat} (h : decimalValue? c = some n) : n < 10 := by
  unfold decimalValue? at h
  split at h
  · split at h
    · rename_i hd
      simp only [Char.isDigit, Bool.and_eq_true, decide_eq_true_eq] at hd
      have h9 : c.val.toNat ≤ 57 := hd.2
      simp only [Option.some.injEq] at h
      have : c.toNat = c.val.toNat := rfl
      omega
    · simp at h
  · simp only [Option.map_eq_some_iff] at h
    obtain ⟨start, hs, rfl⟩ := h
    have := Array.find?_some hs
    simp only [Bool.and_eq_true, decide_eq_true_eq] at this
    omega

end Z80Workbench.Text
