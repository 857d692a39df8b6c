/-!
# Z80Workbench.Word

Bytes and words. Numbers are kept as natural numbers below 256 and 65536; whatever leaves that
range wraps. Operations that may go below zero are done on integers and wrapped afterwards.
-/

namespace Z80Workbench

/-- An integer wrapped to a byte. -/
def byte (n : Int) : Nat := (n % 256).toNat

/-- An integer wrapped to a word. -/
def word (n : Int) : Nat := (n % 65536).toNat

/-- An integer read as a two's complement number of some bits. -/
def signed (bits : Nat) (n : Int) : Int := n.bmod (1 <<< bits)

/-- An integer read as a two's complement number, which has one bit at least. -/
def signed? (bits n : Int) : Option Int :=
  if 0 < bits then some (signed bits.toNat n) else none

/-- The low byte of a word. -/
def lowByte (w : Nat) : Nat := w % 256

/-- The high byte of a word. -/
def highByte (w : Nat) : Nat := w / 256 % 256

/-- The word with the given bytes. -/
def wordOf (high low : Nat) : Nat := high * 256 + low

/-- The bytes of a word, low byte first. -/
def wordBytes (w : Nat) : List Nat := [lowByte w, highByte w]

theorem byte_lt (n : Int) : byte n < 256 := by unfold byte; omega

theorem word_lt (n : Int) : word n < 65536 := by unfold word; omega

theorem lowByte_lt (w : Nat) : lowByte w < 256 := by unfold lowByte; omega

theorem highByte_lt (w : Nat) : highByte w < 256 := by unfold highByte; omega

/-- A word is made of its bytes. -/
theorem wordOf_highByte_lowByte {w : Nat} (h : w < 65536) :
    wordOf (highByte w) (lowByte w) = w := by
  unfold wordOf highByte lowByte; omega

/-- The high byte of two joined bytes. -/
theorem highByte_wordOf {high low : Nat} (hh : high < 256) (hl : low < 256) :
    highByte (wordOf high low) = high := by
  unfold highByte wordOf; omega

/-- The low byte of two joined bytes. -/
theorem lowByte_wordOf {high low : Nat} (hl : low < 256) : lowByte (wordOf high low) = low := by
  unfold lowByte wordOf; omega

/-- A word in range wraps to itself. -/
theorem word_natCast {n : Nat} (h : n < 65536) : word n = n := by unfold word; omega

end Z80Workbench
