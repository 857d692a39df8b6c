import Std.Data.ExtTreeMap
import Z80Workbench.Text.Hex
import Z80Workbench.Word

/-!
# Z80Workbench.Memory

Sparse memory: bytes at some of the addresses of a 64 KB space. A program image is one, and so
are the bytes that a running program has written. Addresses wrap and values are cut to bytes.
-/

namespace Z80Workbench

/-- Bytes at some addresses. -/
structure Memory where
  cells : Std.ExtTreeMap Nat Nat

namespace Memory

/-- No byte anywhere. -/
def empty : Memory := ⟨∅⟩

instance : EmptyCollection Memory := ⟨empty⟩

instance : Inhabited Memory := ⟨empty⟩

/-- The byte at an address, if there is one. -/
def get? (m : Memory) (address : Nat) : Option Nat := m.cells[address % 65536]?

/-- Whether there is a byte at an address. -/
def contains (m : Memory) (address : Nat) : Bool := (m.get? address).isSome

/-- Stores a byte. -/
def set (m : Memory) (address value : Nat) : Memory :=
  ⟨m.cells.insert (address % 65536) (value % 256)⟩

/-- Stores bytes from an address on. -/
def write (m : Memory) (address : Nat) : List Nat → Memory
  | [] => m
  | b :: rest => (m.set address b).write (address + 1) rest

/-- Stores bytes from an address on, leaving out the addresses where none is given. -/
def writeSlots (m : Memory) (address : Nat) : List (Option Nat) → Memory
  | [] => m
  | none :: rest => m.writeSlots (address + 1) rest
  | some b :: rest => (m.set address b).writeSlots (address + 1) rest

/-- The word at an address; a missing byte is that of a default word. -/
def word (m : Memory) (address usual : Nat) : Nat :=
  wordOf ((m.get? (address + 1)).getD (highByte usual)) ((m.get? address).getD (lowByte usual))

/-- The addresses with their bytes, in order of addresses. -/
def toList (m : Memory) : List (Nat × Nat) := m.cells.toList

/-- The number of bytes. -/
def size (m : Memory) : Nat := m.cells.size

/-- Whether there is no byte. -/
def isEmpty (m : Memory) : Bool := m.size = 0

/-- The lowest address with a byte. -/
def lowest? (m : Memory) : Option Nat := m.cells.minKey?

/-- The highest address with a byte. -/
def highest? (m : Memory) : Option Nat := m.cells.maxKey?

/-- The bytes of `front`, and those of `back` where it has none. -/
def overlay (front back : Memory) : Memory :=
  front.toList.foldl (fun m cell => m.set cell.1 cell.2) back

/-- What a stored byte is read as, and the other bytes as before. -/
theorem get?_set (m : Memory) (address value other : Nat) :
    (m.set address value).get? other =
      if address % 65536 = other % 65536 then some (value % 256) else m.get? other := by
  simp only [get?, set, Std.ExtTreeMap.getElem?_insert, Nat.compare_eq_eq]

@[simp] theorem get?_empty (address : Nat) : (∅ : Memory).get? address = none := by
  show (∅ : Std.ExtTreeMap Nat Nat)[address % 65536]? = none
  simp

/-! ## Export -/

/-- Why a block cannot be exported. -/
inductive ExportError where
  | empty
  | inverted (first last : Int)
  deriving Repr, DecidableEq

namespace ExportError

/-- An export error in words. -/
def message : ExportError → String
  | empty => "memory image is empty, nothing to export"
  | inverted first last => "invalid range $" ++ Text.hexPadded 4 first ++ "-$" ++
      Text.hexPadded 4 last

end ExportError

/-- The byte at an address that is not wrapped: outside the address space there is none. -/
def byteAt? (m : Memory) (address : Int) : Option Nat :=
  if 0 ≤ address ∧ address < 65536 then m.get? address.toNat else none

/-- A block without gaps, from a first to a last address, which are by default the lowest and
the highest one with a byte. Addresses without a byte get the fill value. -/
def exportBlock (m : Memory) (first last : Option Int) (fill : Nat) :
    Except ExportError (List Nat) :=
  match m.lowest?, m.highest? with
  | some lowest, some highest =>
    let first := first.getD lowest
    let last := last.getD highest
    if last < first then .error (.inverted first last)
    else
      .ok ((List.range (last - first + 1).toNat).map fun (i : Nat) =>
        (m.byteAt? (first + (i : Int))).getD (fill % 256))
  | _, _ => .error .empty

end Memory

end Z80Workbench
