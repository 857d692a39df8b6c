/-!
# Z80Workbench.Machine.Video

The video chip: 16 KB of video memory behind an address register that advances with every
access, reached through a data port and a control port.

The control port takes pairs of bytes. The first byte of a pair is kept; the second either
belongs to a chip register, which has no effect here, or completes an address. Reading or
writing the data port, and reading the status, starts a new pair.
-/

namespace Z80Workbench

/-- The state of the video chip. -/
structure Video where
  vram : Array Nat
  address : Nat
  latched : Bool
  latch : Nat
  deriving Repr, DecidableEq

namespace Video

/-- The number of bytes of video memory. -/
def vramSize : Nat := 0x4000

/-- The port that carries data. -/
def dataPort : Nat := 0x98

/-- The port that carries addresses and status. -/
def controlPort : Nat := 0x99

/-- The video chip at power on. -/
def initial : Video := ⟨Array.replicate vramSize 0, 0, false, 0⟩

/-- The byte at an address, which wraps. -/
def byteAt (v : Video) (address : Nat) : Nat := (v.vram[address % vramSize]?).getD 0

/-- Stores a byte at an address, which wraps. -/
def store (v : Video) (address value : Nat) : Video :=
  { v with vram := v.vram.setIfInBounds (address % vramSize) (value % 256) }

/-- Moves on to the next address and drops half a control pair. -/
def advance (v : Video) : Video :=
  { v with address := (v.address + 1) % vramSize, latched := false }

/-! ## Ports -/

/-- Writes the data port. -/
def writeData (v : Video) (value : Nat) : Video := (v.store v.address value).advance

/-- Reads the data port. -/
def readData (v : Video) : Nat × Video := (v.byteAt v.address, v.advance)

/-- Writes the control port. -/
def writeControl (v : Video) (value : Nat) : Video :=
  let b := value % 256
  if !v.latched then { v with latch := b, latched := true }
  else if 0x80 ≤ b then { v with latched := false }
  else { v with latched := false, address := (b % 0x40) * 256 ||| v.latch }

/-- Reads the status, which is always zero. -/
def readStatus (v : Video) : Nat × Video := (0, { v with latched := false })

/-- Writes a port of the chip. -/
def output? (v : Video) (port value : Nat) : Option Video :=
  if port % 256 = dataPort then some (v.writeData value)
  else if port % 256 = controlPort then some (v.writeControl value)
  else none

/-- Reads a port of the chip. -/
def input? (v : Video) (port : Nat) : Option (Nat × Video) :=
  if port % 256 = dataPort then some v.readData
  else if port % 256 = controlPort then some v.readStatus
  else none

/-! ## Blocks -/

/-- Fills a block with one value. -/
def fill (v : Video) (address length value : Nat) : Video :=
  match length with
  | 0 => v
  | n + 1 => (v.store address value).fill (address + 1) n value

/-- Stores a block of bytes. -/
def load (v : Video) (address : Nat) : List Nat → Video
  | [] => v
  | b :: rest => (v.store address b).load (address + 1) rest

/-! ## Usage -/

/-- The ranges of non-zero bytes, from an address on; `opened` is where a range that goes on
there has started. -/
def rangesFrom (address : Nat) (opened : Option Nat) : List Nat → List (Nat × Nat)
  | [] => opened.toList.map (·, address - 1)
  | b :: rest =>
    match opened, b with
    | none, 0 => rangesFrom (address + 1) none rest
    | none, _ + 1 => rangesFrom (address + 1) (some address) rest
    | some first, 0 => (first, address - 1) :: rangesFrom (address + 1) none rest
    | some first, _ + 1 => rangesFrom (address + 1) (some first) rest

/-- The first and last addresses of the ranges of non-zero bytes. -/
def usedRanges (v : Video) : List (Nat × Nat) := rangesFrom 0 none v.vram.toList

@[simp] theorem size_store (v : Video) (address value : Nat) :
    (v.store address value).vram.size = v.vram.size := by
  simp [store]

end Video

end Z80Workbench
