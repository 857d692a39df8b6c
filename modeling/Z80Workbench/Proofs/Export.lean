import Mathlib.Data.List.Basic
import Z80Workbench.Proofs.Memory

/-!
# Z80Workbench.Proofs.Export

Blocks of a memory.  A memory that rows of bytes have been written to, each wrapping round the end
of the address space and running over itself if it is long enough, holds at every address what was
written there last.  A block of it is read without wrapping: it has these bytes, and the fill value
in the gaps and outside the address space.
-/

namespace Z80Workbench

/-! ## writes as single bytes -/

namespace Memory

/-- Stores bytes at addresses of their own, one after the other. -/
def storeCells (m : Memory) (cells : List (Nat × Nat)) : Memory :=
  cells.foldl (fun m cell => m.set cell.1 cell.2) m

theorem storeCells_cons (m : Memory) (cell : Nat × Nat) (rest : List (Nat × Nat)) :
    m.storeCells (cell :: rest) = (m.set cell.1 cell.2).storeCells rest := rfl

theorem storeCells_append (m : Memory) (front back : List (Nat × Nat)) :
    m.storeCells (front ++ back) = (m.storeCells front).storeCells back :=
  List.foldl_append

/-- Only the word of an address matters. -/
theorem set_congr (m : Memory) {address other : Nat} (h : address % 65536 = other % 65536)
    (value : Nat) : m.set address value = m.set other value := by
  rw [set, set, h]

end Memory

/-- Bytes, and the address that they are written from, which may be any number. -/
structure Write where
  address : Int
  bytes : List UInt8
  deriving Repr, DecidableEq

namespace Write

/-- A memory after the write. -/
def onto (w : Write) (m : Memory) : Memory :=
  m.write (word w.address) (w.bytes.map UInt8.toNat)

/-- The bytes with the addresses in memory that they come to. -/
def cells (w : Write) : List (Nat × Nat) :=
  w.bytes.mapIdx fun i b => (word (w.address + i), b.toNat)

/-- The bytes of a write are stored one after the other. -/
theorem onto_eq (w : Write) (m : Memory) : w.onto m = m.storeCells w.cells := by
  obtain ⟨start, bytes⟩ := w
  suffices general : ∀ address : Nat, address % 65536 = word start →
      m.write address (bytes.map UInt8.toNat) = m.storeCells (cells ⟨start, bytes⟩) from
    general (word start) (Nat.mod_eq_of_lt (word_lt start))
  induction bytes generalizing m start with
  | nil => exact fun _ _ => rfl
  | cons b rest ih =>
      intro address h
      have first : address % 65536 = word (start + (0 : Nat)) % 65536 := by
        unfold word at h ⊢
        omega
      have later : (address + 1) % 65536 = word (start + 1) := by
        unfold word at h ⊢
        omega
      have shift : (fun (i : Nat) (b : UInt8) => (word (start + (i + 1 : Nat)), b.toNat)) =
          fun (i : Nat) (b : UInt8) => (word (start + 1 + i), b.toNat) := by
        funext i b
        congr 2
        omega
      rw [List.map_cons, Memory.write, ih _ _ _ later, Memory.set_congr m first, cells, cells,
        List.mapIdx_cons, shift]
      rfl

/-- They are bytes at addresses. -/
theorem lt_of_mem_cells {writes : List Write} {cell : Nat × Nat}
    (h : cell ∈ writes.flatMap cells) : cell.1 < 65536 ∧ cell.2 < 256 := by
  obtain ⟨w, -, hc⟩ := List.mem_flatMap.mp h
  obtain ⟨i, hi, rfl⟩ := List.mem_mapIdx.mp hc
  exact ⟨word_lt _, UInt8.toNat_lt _⟩

end Write

namespace Memory

/-- An empty memory after some writes. -/
def ofWrites (writes : List Write) : Memory := writes.foldl (fun m w => w.onto m) ∅

/-- The addresses that some writes store a byte at. -/
def written (writes : List Write) : List Nat := (writes.flatMap Write.cells).map (·.1)

/-- The byte that some writes store last at an address. -/
def lastWritten (writes : List Write) (address : Nat) : Option Nat :=
  ((writes.flatMap Write.cells).findRev? (·.1 = address)).map (·.2)

/-- What a block holds at an address, which need not be one of the address space. -/
def exported (writes : List Write) (fill : Int) (address : Int) : Nat :=
  if 0 ≤ address ∧ address < 65536 then (lastWritten writes address.toNat).getD (byte fill)
  else byte fill

variable {writes : List Write} {address : Nat}

theorem ofWrites_eq_storeCells (writes : List Write) :
    ofWrites writes = (∅ : Memory).storeCells (writes.flatMap Write.cells) := by
  suffices general : ∀ m : Memory,
      writes.foldl (fun m w => w.onto m) m = m.storeCells (writes.flatMap Write.cells) from
    general ∅
  induction writes with
  | nil => exact fun m => rfl
  | cons w rest ih =>
      intro m
      rw [List.foldl_cons, ih, Write.onto_eq, List.flatMap_cons, storeCells_append]

/-! ## what a memory holds after writes -/

/-- The last byte stored at an address is found there. -/
theorem get?_storeCells {cells : List (Nat × Nat)} (m : Memory)
    (bytes : ∀ cell ∈ cells, cell.1 < 65536 ∧ cell.2 < 256) (h : address < 65536) :
    (m.storeCells cells).get? address =
      ((cells.findRev? (·.1 = address)).map (·.2)).or (m.get? address) := by
  induction cells generalizing m with
  | nil => rfl
  | cons cell rest ih =>
      obtain ⟨low, small⟩ := bytes cell List.mem_cons_self
      rw [storeCells_cons, ih _ fun c hc => bytes c (List.mem_cons_of_mem _ hc), get?_set,
        Nat.mod_eq_of_lt low, Nat.mod_eq_of_lt h, Nat.mod_eq_of_lt small, List.findRev?]
      cases rest.findRev? (·.1 = address) with
      | some later => rfl
      | none => by_cases here : cell.1 = address <;> simp [here]

/-- A memory holds what was written last. -/
theorem get?_ofWrites (h : address < 65536) :
    (ofWrites writes).get? address = lastWritten writes address := by
  rw [ofWrites_eq_storeCells, get?_storeCells _ (fun _ => Write.lt_of_mem_cells) h, get?_empty,
    Option.or_none, lastWritten]

/-- A cell is there if it was there before or has been stored. -/
theorem mem_storeCells {cells : List (Nat × Nat)} (m : Memory)
    (low : ∀ cell ∈ cells, cell.1 < 65536) :
    address ∈ (m.storeCells cells).cells ↔ address ∈ cells.map (·.1) ∨ address ∈ m.cells := by
  induction cells generalizing m with
  | nil => simp [storeCells]
  | cons cell rest ih =>
      rw [storeCells_cons, ih _ fun c hc => low c (List.mem_cons_of_mem _ hc), set,
        Std.ExtTreeMap.mem_insert, Nat.compare_eq_eq, Nat.mod_eq_of_lt (low _ List.mem_cons_self),
        List.map_cons, List.mem_cons, eq_comm (a := address)]
      tauto

theorem mem_cells_ofWrites : address ∈ (ofWrites writes).cells ↔ address ∈ written writes := by
  rw [ofWrites_eq_storeCells, mem_storeCells _ fun _ hc => (Write.lt_of_mem_cells hc).1, written]
  exact or_iff_left Std.ExtTreeMap.not_mem_empty

theorem lt_of_mem_written (h : address ∈ written writes) : address < 65536 := by
  obtain ⟨cell, hc, rfl⟩ := List.mem_map.mp h
  exact (Write.lt_of_mem_cells hc).1

theorem get?_of_lastWritten {b : Nat} (h : lastWritten writes address = some b) :
    address ∈ written writes ∧ b < 256 := by
  obtain ⟨cell, hf, rfl⟩ := Option.map_eq_some_iff.mp h
  rw [List.findRev?_eq_find?_reverse] at hf
  have here := List.find?_some hf
  have stored := List.mem_reverse.mp (List.mem_of_find?_eq_some hf)
  rw [decide_eq_true_eq] at here
  exact ⟨List.mem_map.mpr ⟨cell, stored, here⟩, (Write.lt_of_mem_cells stored).2⟩

/-- At an address that is written, some byte is the last. -/
theorem exists_lastWritten (h : address ∈ written writes) :
    ∃ b, lastWritten writes address = some b := by
  obtain ⟨cell, hc, here⟩ := List.mem_map.mp h
  have found : ((writes.flatMap Write.cells).reverse.find? (·.1 = address)).isSome := by
    rw [List.find?_isSome]
    exact ⟨cell, List.mem_reverse.mpr hc, by simpa using here⟩
  obtain ⟨last, hl⟩ := Option.isSome_iff_exists.mp found
  exact ⟨last.2, by rw [lastWritten, List.findRev?_eq_find?_reverse, hl, Option.map_some]⟩

/-- The lowest address of a memory is the lowest one written, if any is. -/
theorem lowest?_ofWrites (writes : List Write) :
    (ofWrites writes).lowest? = (written writes).min? := by
  refine Option.ext fun lowest => ?_
  rw [lowest?, Std.ExtTreeMap.minKey?_eq_some_iff_mem_and_forall, List.min?_eq_some_iff]
  simp only [mem_cells_ofWrites, Nat.isLE_compare]

theorem highest?_ofWrites (writes : List Write) :
    (ofWrites writes).highest? = (written writes).max? := by
  refine Option.ext fun highest => ?_
  rw [highest?, Std.ExtTreeMap.maxKey?_eq_some_iff_mem_and_forall, List.max?_eq_some_iff]
  simp only [mem_cells_ofWrites, Nat.isLE_compare]

/-! ## blocks -/

theorem getD_byteAt? (writes : List Write) (fill address : Int) :
    ((ofWrites writes).byteAt? address).getD (byte fill % 256) = exported writes fill address := by
  have small : byte fill % 256 = byte fill := Nat.mod_eq_of_lt (byte_lt fill)
  rw [byteAt?, exported, small]
  by_cases inside : 0 ≤ address ∧ address < 65536
  · rw [if_pos inside, if_pos inside, get?_ofWrites (by omega)]
  · rw [if_neg inside, if_neg inside, Option.getD_none]

/-- A block has a byte for every address from its first to its last one. -/
theorem exportBlock_of_bounds {lowest highest : Nat} (hl : (written writes).min? = some lowest)
    (hh : (written writes).max? = some highest) (first last : Option Int) (fill : Int) :
    (ofWrites writes).exportBlock first last (byte fill) =
      if last.getD highest < first.getD lowest then
        .error (.inverted (first.getD lowest) (last.getD highest))
      else
        .ok ((List.range (last.getD highest - first.getD lowest + 1).toNat).map fun (i : Nat) =>
          exported writes fill (first.getD lowest + i)) := by
  simp only [exportBlock, lowest?_ofWrites, highest?_ofWrites, hl, hh, getD_byteAt?]

theorem write_eq_writeSlots (m : Memory) (address : Nat) (bytes : List Nat) :
    m.write address bytes = m.writeSlots address (bytes.map some) := by
  induction bytes generalizing m address with
  | nil => rfl
  | cons b rest ih => exact ih _ _

/-- The block between the default bounds. -/
def rom (writes : List Write) (fill : Int) (lowest highest : Nat) : List Nat :=
  (List.range (highest - lowest + 1)).map fun (i : Nat) =>
    exported writes fill ((lowest : Int) + i)

section

variable {lowest highest : Nat} (hl : (written writes).min? = some lowest)
  (hh : (written writes).max? = some highest)
include hl hh

/-- The bounds enclose all that is written, and are written themselves. -/
theorem bounds_written : lowest ∈ written writes ∧ highest ∈ written writes ∧
    ∀ address ∈ written writes, lowest ≤ address ∧ address ≤ highest := by
  rw [List.min?_eq_some_iff] at hl
  rw [List.max?_eq_some_iff] at hh
  exact ⟨hl.1, hh.1, fun address h => ⟨hl.2 address h, hh.2 address h⟩⟩

theorem exportBlock_default (fill : Int) :
    (ofWrites writes).exportBlock none none (byte fill) = .ok (rom writes fill lowest highest) := by
  obtain ⟨-, top, within⟩ := bounds_written hl hh
  have order := (within highest top).1
  rw [exportBlock_of_bounds hl hh]
  simp only [Option.getD_none]
  rw [if_neg (by omega), rom]
  congr 3
  omega

/-- Between the default bounds, each byte that is written stands at its place. -/
theorem getElem?_rom (fill : Int) {b : Nat} (h : lastWritten writes address = some b) :
    lowest ≤ address ∧ (rom writes fill lowest highest)[address - lowest]? = some b := by
  have here := (get?_of_lastWritten h).1
  have low := lt_of_mem_written here
  obtain ⟨above, below⟩ := (bounds_written hl hh).2.2 address here
  refine ⟨above, ?_⟩
  have place : (lowest : Int) + (address - lowest : Nat) = address := by omega
  have inside : (0 : Int) ≤ address ∧ (address : Int) < 65536 := by omega
  rw [rom, List.getElem?_map, List.getElem?_range (by omega), Option.map_some, place, exported,
    if_pos inside, Int.toNat_natCast, h, Option.getD_some]

/-- A block that is written back holds every byte that was written. -/
theorem get?_write_rom (fill : Int) {b : Nat} (h : lastWritten writes address = some b) :
    ((∅ : Memory).write lowest (rom writes fill lowest highest)).get? address = some b := by
  obtain ⟨above, place⟩ := getElem?_rom hl hh fill h
  have top := lt_of_mem_written (bounds_written hl hh).2.1
  have short : ((rom writes fill lowest highest).map some).length ≤ 65536 := by
    simp only [rom, List.length_map, List.length_range]
    omega
  have slot : ((rom writes fill lowest highest).map some)[address - lowest]? = some (some b) := by
    rw [List.getElem?_map, place, Option.map_some]
  have found := get?_writeSlots ∅ lowest short slot
  rw [Nat.add_sub_cancel' above] at found
  rw [write_eq_writeSlots, found, Option.map_some, Option.some_or,
    Nat.mod_eq_of_lt (get?_of_lastWritten h).2]

end

/-- A memory that has been written to can be exported unless no byte was written or the block would
end before it starts, and what is wrong is said.  The block has one byte for every address from its
first to its last one: what was written there last, or the fill value where nothing was and outside
the address space.  The block that is taken by default starts and ends with bytes that were
written, and an empty memory that it is written back to holds every byte that was written. -/
theorem exportBlock_ofWrites (writes : List Write) (first last : Option Int) (fill : Int) :
    (written writes = [] →
      (ofWrites writes).exportBlock first last (byte fill) = .error .empty) ∧
    (written writes ≠ [] → ∃ lowest highest,
      (written writes).min? = some lowest ∧ (written writes).max? = some highest ∧
      (last.getD highest < first.getD lowest →
        (ofWrites writes).exportBlock first last (byte fill) =
          .error (.inverted (first.getD lowest) (last.getD highest))) ∧
      (first.getD lowest ≤ last.getD highest →
        ∃ block, (ofWrites writes).exportBlock first last (byte fill) = .ok block ∧
          (block.length : Int) = last.getD highest - first.getD lowest + 1 ∧
          ∀ i < block.length,
            block[i]? = some (exported writes fill (first.getD lowest + i))) ∧
      ∃ block, (ofWrites writes).exportBlock none none (byte fill) = .ok block ∧
        (∃ b, lastWritten writes lowest = some b ∧ block.head? = some b) ∧
        (∃ b, lastWritten writes highest = some b ∧ block.getLast? = some b) ∧
        ∀ address b, lastWritten writes address = some b →
          ((∅ : Memory).write lowest block).get? address = some b) := by
  constructor
  · intro blank
    rw [exportBlock, lowest?_ofWrites, blank]
    rfl
  · intro stored
    obtain ⟨lowest, hl⟩ := Option.ne_none_iff_exists'.mp (mt List.min?_eq_none_iff.mp stored)
    obtain ⟨highest, hh⟩ := Option.ne_none_iff_exists'.mp (mt List.max?_eq_none_iff.mp stored)
    obtain ⟨bottom, top, -⟩ := bounds_written hl hh
    refine ⟨lowest, highest, hl, hh, ?inverted, ?block, rom writes fill lowest highest,
      exportBlock_default hl hh fill, ?bottom, ?top, fun _ _ => get?_write_rom hl hh fill⟩
    case inverted =>
      intro order
      rw [exportBlock_of_bounds hl hh, if_pos order]
    case block =>
      intro order
      rw [exportBlock_of_bounds hl hh, if_neg (Int.not_lt.mpr order)]
      refine ⟨_, rfl, ?_, fun i hi => ?_⟩
      · simp only [List.length_map, List.length_range]
        omega
      · rw [List.length_map, List.length_range] at hi
        rw [List.getElem?_map, List.getElem?_range hi, Option.map_some]
    case bottom =>
      obtain ⟨b, hb⟩ := exists_lastWritten bottom
      have place := (getElem?_rom hl hh fill hb).2
      rw [Nat.sub_self] at place
      exact ⟨b, hb, List.head?_eq_getElem? ▸ place⟩
    case top =>
      obtain ⟨b, hb⟩ := exists_lastWritten top
      have place := (getElem?_rom hl hh fill hb).2
      have length : (rom writes fill lowest highest).length - 1 = highest - lowest := by
        simp only [rom, List.length_map, List.length_range]
        omega
      exact ⟨b, hb, by rw [List.getLast?_eq_getElem?, length, place]⟩

/-- Three bytes round the end of the address space, and one of them written again. -/
def wrappingWrites : List Write := [⟨-1, [1, 2, 3]⟩, ⟨65536, [9]⟩]

theorem exportBlock_ofWrites_wrapping :
    (ofWrites []).exportBlock none none (byte 0) = .error .empty ∧
    (ofWrites wrappingWrites).exportBlock (some 2) (some 1) (byte 0) = .error (.inverted 2 1) ∧
    ∃ block, (ofWrites wrappingWrites).exportBlock (some (-1)) (some 2) (byte (-1)) = .ok block ∧
      block.length = 4 ∧ ∀ i < 4, block[i]? = [255, 9, 3, 255][i]? := by
  have stored : written wrappingWrites ≠ [] := by decide +kernel
  refine ⟨(exportBlock_ofWrites [] none none 0).1 rfl, ?_, ?_⟩
  · obtain ⟨lowest, highest, -, -, inverted, -⟩ :=
      (exportBlock_ofWrites wrappingWrites (some 2) (some 1) 0).2 stored
    exact inverted (show (1 : Int) < 2 by decide)
  · obtain ⟨lowest, highest, -, -, -, upright, -⟩ :=
      (exportBlock_ofWrites wrappingWrites (some (-1)) (some 2) (-1)).2 stored
    obtain ⟨block, ok, length, held⟩ := upright (show (-1 : Int) ≤ 2 by decide)
    have four : block.length = 4 := Int.ofNat.inj length
    have bytes : ∀ i < 4, [255, 9, 3, 255][i]? =
        some (exported wrappingWrites (-1) (-1 + (i : Nat))) := by decide +kernel
    exact ⟨block, ok, four, fun i hi => (held i (four ▸ hi)).trans (bytes i hi).symm⟩

end Memory

end Z80Workbench
