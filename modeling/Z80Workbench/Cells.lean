import Z80Workbench.Expr.Scope
import Z80Workbench.Memory

/-!
# Z80Workbench.Cells

Raw cells: integers at integer keys, as a debugger may set them up by hand over a memory image.
Neither a key nor a value needs to be in range. Access wraps addresses, so that a cell whose key
is no address is kept and listed, but never read; what is written through an address is a byte.
-/

namespace Z80Workbench

/-- The integer whose bits, in two's complement, are those that either of two integers has. -/
def joinBits : Int → Int → Int
  | .ofNat a, .ofNat b => .ofNat (a ||| b)
  | .ofNat a, .negSucc b => .negSucc (b ^^^ (a &&& b))
  | .negSucc a, .ofNat b => .negSucc (a ^^^ (a &&& b))
  | .negSucc a, .negSucc b => .negSucc (a &&& b)

/-- Integers at some integer keys. -/
structure Cells where
  entries : Std.ExtTreeMap Int Int

namespace Cells

/-- The key that an address stands for. -/
def key (address : Int) : Int := address % 65536

/-- The cells of a list; of two with one key, the later. -/
def ofList (cells : List (Int × Int)) : Cells := ⟨.ofList cells⟩

/-- The cells in order of keys. -/
def toList (cells : Cells) : List (Int × Int) := cells.entries.toList

/-- The keys in order. -/
def keys (cells : Cells) : List Int := cells.entries.keys

/-- The number of cells. -/
def size (cells : Cells) : Nat := cells.entries.size

/-- Whether there is no cell. -/
def isEmpty (cells : Cells) : Bool := cells.size = 0

/-- The cell at an address, if there is one. -/
def get? (cells : Cells) (address : Int) : Option Int := cells.entries[key address]?

/-- Whether there is a cell at an address. -/
def contains (cells : Cells) (address : Int) : Bool := (cells.get? address).isSome

/-- Stores a byte. -/
def set (cells : Cells) (address value : Int) : Cells :=
  ⟨cells.entries.insert (key address) (byte value)⟩

/-- Stores a word. -/
def setWord (cells : Cells) (address value : Int) : Cells :=
  (cells.set address (lowByte (word value))).set (address + 1)
    (highByte (word value))

/-- What is read at an address: the cell, or else the byte of the image, or else zero. -/
def read (cells : Cells) (image : Memory) (address : Int) : Int :=
  match cells.get? address with
  | some value => value
  | none => (image.get? (word address)).getD 0

/-- What is read as a word at an address: the bits of the cell there and, moved up by a byte,
those of the next one. -/
def readWord (cells : Cells) (image : Memory) (address : Int) : Int :=
  joinBits (cells.read image address) (cells.read image (address + 1) * 256)

/-- The symbols at whose addresses there are cells, with these. -/
def named (cells : Cells) (symbols : Symbols) : List (String × Int) :=
  symbols.entries.filterMap fun (name, value) => (cells.get? value).map (name, ·)

/-- What a stored byte is read as, and the other cells as before. -/
theorem get?_set (cells : Cells) (address value other : Int) :
    (cells.set address value).get? other =
      if key address = key other then some (byte value : Int) else cells.get? other := by
  simp only [get?, set, Std.ExtTreeMap.getElem?_insert, Std.LawfulEqCmp.compare_eq_iff_eq]

/-- No integer has more bits than itself and zero. -/
theorem joinBits_zero (n : Int) : joinBits n 0 = n := by
  cases n with
  | ofNat a => show joinBits (.ofNat a) (.ofNat 0) = _; simp [joinBits]
  | negSucc a => show joinBits (.negSucc a) (.ofNat 0) = _; simp [joinBits]

end Cells

end Z80Workbench
