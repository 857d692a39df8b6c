import Z80Workbench.Machine.Video
import Z80Workbench.Word

/-!
# Z80Workbench.Proofs.Machine.VideoPorts

Two ways into video memory: a program sets an address through the control port and sends bytes
through the data port; a firmware routine stores a whole block at once.  Both leave the same
memory, also where the block runs past the end of memory and starts over at its beginning, and what
has been stored either way is read back through the data port.
-/

namespace Z80Workbench.Video

variable {v w : Video}

/-! ## programs for the ports -/

/-- Reads the status, which drops half a control pair, and sends the control pair of an address. -/
def select? (v : Video) (a : Nat) : Option Video := do
  let (_, v) ← v.input? controlPort
  let v ← v.output? controlPort (lowByte a)
  v.output? controlPort (highByte a ||| 0x40)

/-- Sends bytes through the data port. -/
def send? (v : Video) : List Nat → Option Video
  | [] => some v
  | b :: rest => do (← v.output? dataPort b).send? rest

/-- Receives bytes through the data port. -/
def receive? (v : Video) : Nat → Option (List Nat × Video)
  | 0 => some ([], v)
  | n + 1 => do
      let (b, v) ← v.input? dataPort
      let (rest, v) ← v.receive? n
      return (b :: rest, v)

/-- Writes a block through the ports. -/
def writeBlock? (v : Video) (a : Nat) (data : List Nat) : Option Video := do
  (← v.select? a).send? data

/-- Reads a block through the ports. -/
def readBlock? (v : Video) (a n : Nat) : Option (List Nat × Video) := do
  (← v.select? a).receive? n

/-! ## blocks -/

theorem store_mod (v : Video) (a b : Nat) : v.store (a % vramSize) b = v.store a b := by
  simp [store]

/-- The block wraps wherever it starts. -/
theorem load_mod (v : Video) (a : Nat) (data : List Nat) :
    v.load (a % vramSize) data = v.load a data := by
  induction data generalizing v a with
  | nil => rfl
  | cons b rest ih =>
      calc (v.store (a % vramSize) b).load (a % vramSize + 1) rest
        _ = (v.store a b).load ((a % vramSize + 1) % vramSize) rest := by rw [store_mod, ih]
        _ = (v.store a b).load ((a + 1) % vramSize) rest := by rw [Nat.mod_add_mod]
        _ = (v.store a b).load (a + 1) rest := ih _ _

/-- What a block leaves in memory has nothing to do with the address register. -/
theorem vram_load_congr (h : v.vram = w.vram) (a : Nat) (data : List Nat) :
    (v.load a data).vram = (w.load a data).vram := by
  induction data generalizing v w a with
  | nil => exact h
  | cons b rest ih => exact ih (by simp [store, h]) (a + 1)

/-- Filling is storing a block of one byte over and over. -/
theorem fill_eq_load (v : Video) (a n b : Nat) : v.fill a n b = v.load a (List.replicate n b) := by
  induction n generalizing v a with
  | zero => rfl
  | succ n ih => exact ih _ _

theorem byteAt_store_self (size : v.vram.size = vramSize) (a b : Nat) :
    (v.store a b).byteAt a = b % 256 := by
  have inside : a % vramSize < v.vram.size := by
    rw [size]
    exact Nat.mod_lt a (by decide)
  simp [byteAt, store, inside]

theorem byteAt_store_of_ne {a c : Nat} (far : a % vramSize ≠ c % vramSize) (b : Nat) :
    (v.store a b).byteAt c = v.byteAt c := by
  simp [byteAt, store, far]

/-- A block leaves the bytes outside it alone. -/
theorem byteAt_load_of_ne {a c : Nat} {data : List Nat}
    (far : ∀ k < data.length, (a + k) % vramSize ≠ c % vramSize) :
    (v.load a data).byteAt c = v.byteAt c := by
  induction data generalizing v a with
  | nil => rfl
  | cons b rest ih =>
      have later : ∀ k < rest.length, (a + 1 + k) % vramSize ≠ c % vramSize := by
        intro k hk
        rw [Nat.add_right_comm, Nat.add_assoc]
        exact far (k + 1) (Nat.succ_lt_succ hk)
      exact (ih later).trans (byteAt_store_of_ne (far 0 (Nat.succ_pos _)) b)

/-- The bytes of a block. -/
def bytesFrom (v : Video) (a : Nat) : Nat → List Nat
  | 0 => []
  | n + 1 => v.byteAt a :: v.bytesFrom (a + 1) n

theorem bytesFrom_congr (h : v.vram = w.vram) (n : Nat) {a c : Nat}
    (same : a % vramSize = c % vramSize) : v.bytesFrom a n = w.bytesFrom c n := by
  induction n generalizing a c with
  | zero => rfl
  | succ n ih =>
      have first : v.byteAt a = w.byteAt c := by rw [byteAt, byteAt, h, same]
      have next : (a + 1) % vramSize = (c + 1) % vramSize := by
        rw [← Nat.mod_add_mod, same, Nat.mod_add_mod]
      rw [bytesFrom, bytesFrom, first, ih next]

/-- A block that is no longer than memory does not run into itself: it is there when it has been
stored. -/
theorem bytesFrom_load (size : v.vram.size = vramSize) {data : List Nat}
    (bytes : ∀ b ∈ data, b < 256) (fits : data.length ≤ vramSize) (a : Nat) :
    (v.load a data).bytesFrom a data.length = data := by
  induction data generalizing v a with
  | nil => rfl
  | cons b rest ih =>
      have apart : ∀ k < rest.length, (a + 1 + k) % vramSize ≠ a % vramSize := by
        intro k hk same
        rw [List.length_cons] at fits
        have fits : k + 1 < 0x4000 := by simp only [vramSize] at fits; omega
        simp only [vramSize] at same
        omega
      have first : ((v.store a b).load (a + 1) rest).byteAt a = b := by
        rw [byteAt_load_of_ne apart, byteAt_store_self size,
          Nat.mod_eq_of_lt (bytes b List.mem_cons_self)]
      have others := ih ((size_store v a b).trans size)
        (fun c hc => bytes c (List.mem_cons_of_mem b hc))
        (Nat.le_of_succ_le fits) (a + 1)
      rw [load, List.length_cons, bytesFrom, first, others]

/-! ## the address register -/

/-- The second byte of a control pair is the page of the address, marked. -/
theorem highByte_or_mark {a : Nat} (h : a < vramSize) :
    highByte a ||| 0x40 = highByte a + 0x40 := by
  have page : highByte a < 2 ^ 6 := by
    simp only [vramSize] at h
    simp only [highByte]
    omega
  calc highByte a ||| 0x40
    _ = 0x40 ||| highByte a := Nat.or_comm _ _
    _ = 0x40 + highByte a := (Nat.two_pow_add_eq_or_of_lt page 1).symm
    _ = highByte a + 0x40 := Nat.add_comm _ _

/-- The chip drops the mark and puts the two bytes together again. -/
theorem address_of_bytes {a : Nat} (h : a < vramSize) :
    highByte a % 0x40 * 256 ||| lowByte a = a := by
  have page : highByte a % 0x40 = a / 256 := by
    simp only [vramSize] at h
    simp only [highByte]
    omega
  calc highByte a % 0x40 * 256 ||| lowByte a
    _ = 256 * (a / 256) ||| lowByte a := by rw [page, Nat.mul_comm]
    _ = 256 * (a / 256) + lowByte a :=
        (Nat.two_pow_add_eq_or_of_lt (i := 8) (lowByte_lt a) _).symm
    _ = a := Nat.div_add_mod a 256

/-- The chip with its address set. -/
def selected (v : Video) (a : Nat) : Video :=
  { v with address := a, latched := false, latch := lowByte a }

/-- Whatever half a control pair has been sent before, the address is set. -/
theorem select?_eq (v : Video) {a : Nat} (h : a < vramSize) :
    v.select? a = some (v.selected a) := by
  have low : lowByte a % 256 = lowByte a := Nat.mod_eq_of_lt (lowByte_lt a)
  have mark : ¬ 0x80 ≤ (highByte a + 0x40) % 256 := by
    simp only [vramSize] at h
    simp only [highByte]
    omega
  calc v.select? a
    _ = some (({ v with latched := false }.writeControl (lowByte a)).writeControl
          (highByte a ||| 0x40)) := rfl
    _ = some ({ v with latch := lowByte a, latched := true }.writeControl
          (highByte a + 0x40)) := by
        rw [highByte_or_mark h]
        simp [writeControl, low]
    _ = some (v.selected a) := by
        simp [writeControl, selected, mark, address_of_bytes h]

/-! ## the data port -/

/-- What sending bytes leaves: the block at the address register, which has moved on behind it. -/
structure Sent (v : Video) (data : List Nat) (w : Video) : Prop where
  vram : w.vram = (v.load v.address data).vram
  address : w.address = (v.address + data.length) % vramSize
  latched : w.latched = false

/-- One byte is sent before the others. -/
theorem Sent.cons {b : Nat} {rest : List Nat} (h : Sent (v.writeData b) rest w) :
    Sent v (b :: rest) w where
  vram := by
    calc w.vram
      _ = ((v.writeData b).load ((v.address + 1) % vramSize) rest).vram := h.vram
      _ = ((v.writeData b).load (v.address + 1) rest).vram := by rw [load_mod]
      _ = ((v.store v.address b).load (v.address + 1) rest).vram :=
          vram_load_congr (v := v.writeData b) (w := v.store v.address b) rfl _ _
  address := by
    calc w.address
      _ = ((v.address + 1) % vramSize + rest.length) % vramSize := h.address
      _ = (v.address + (b :: rest).length) % vramSize := by
          rw [Nat.mod_add_mod, List.length_cons, Nat.add_assoc, Nat.add_comm 1]
  latched := h.latched

theorem exists_sent (start : v.address < vramSize) (clear : v.latched = false) (data : List Nat) :
    ∃ w, v.send? data = some w ∧ Sent v data w := by
  induction data generalizing v with
  | nil => exact ⟨v, rfl, rfl, (Nat.mod_eq_of_lt start).symm, clear⟩
  | cons b rest ih =>
      obtain ⟨w, sending, sent⟩ :=
        @ih (v.writeData b) (Nat.mod_lt (v.address + 1) (by decide)) rfl
      exact ⟨w, sending, sent.cons⟩

/-- What is received is the block at the address register. -/
theorem exists_received (v : Video) (n : Nat) :
    ∃ w, v.receive? n = some (v.bytesFrom v.address n, w) ∧ w.vram = v.vram := by
  induction n generalizing v with
  | zero => exact ⟨v, rfl, rfl⟩
  | succ n ih =>
      obtain ⟨w, receiving, kept⟩ := ih v.advance
      have rest : v.advance.bytesFrom v.advance.address n = v.bytesFrom (v.address + 1) n :=
        bytesFrom_congr (v := v.advance) (w := v) rfl n (Nat.mod_mod _ _)
      refine ⟨w, ?_, kept⟩
      calc v.receive? (n + 1)
        _ = (v.advance.receive? n).bind (fun r => some (v.byteAt v.address :: r.1, r.2)) := rfl
        _ = some (v.bytesFrom v.address (n + 1), w) := by
            rw [receiving, rest]
            rfl

/-! ## blocks through the ports -/

/-- **The ports and the firmware write the same memory.**  Whatever the state of the chip, setting
an address through the control port and sending bytes through the data port leaves what loading
these bytes at once leaves, filling if they are all the same, or storing if there is only one; the
address register is behind the last byte and no control pair is open.  A block no longer than video
memory can then be read back the same way. -/
theorem writeBlock?_eq_load (v : Video) {a : Nat} {data : List Nat} (ha : a < vramSize)
    (bytes : ∀ b ∈ data, b < 256) :
    ∃ written, v.writeBlock? a data = some written ∧
      written.vram = (v.load a data).vram ∧
      (∀ n b, data = List.replicate n b → written.vram = (v.fill a n b).vram) ∧
      (∀ b, data = [b] → written.vram = (v.store a b).vram) ∧
      written.address = (a + data.length) % vramSize ∧ written.latched = false ∧
      (v.vram.size = vramSize → data.length ≤ vramSize →
        ∃ read, written.readBlock? a data.length = some (data, read) ∧
          read.vram = written.vram) := by
  obtain ⟨written, sending, sent⟩ := @exists_sent (v.selected a) ha rfl data
  have block : written.vram = (v.load a data).vram :=
    sent.vram.trans (vram_load_congr (v := v.selected a) (w := v) rfl a data)
  refine ⟨written, ?written, block, ?fill, ?store, sent.address, sent.latched, ?read⟩
  case written =>
      rw [writeBlock?, select?_eq v ha]
      exact sending
  case fill =>
      rintro n b rfl
      rw [block, fill_eq_load]
  case store =>
      rintro b rfl
      exact block
  case read =>
      intro size fits
      obtain ⟨read, receiving, kept⟩ := exists_received (written.selected a) data.length
      have there : (written.selected a).bytesFrom a data.length = data :=
        (bytesFrom_congr (v := written.selected a) block _ rfl).trans
          (bytesFrom_load size bytes fits a)
      refine ⟨read, ?_, kept⟩
      calc written.readBlock? a data.length
        _ = (written.selected a).receive? data.length := by
            rw [readBlock?, select?_eq written ha]
            rfl
        _ = some (data, read) := by
            rw [receiving]
            exact congrArg (fun block => some (block, read)) there

/-- A block that starts at the last address of a chip in the middle of a control pair. -/
theorem writeBlock?_eq_load_wrapping : ∃ written read : Video,
    { initial with latched := true, latch := 0x12 }.writeBlock? 0x3FFF [0xA5, 0xA5, 0xA5] =
        some written ∧
      written.vram = (initial.fill 0x3FFF 3 0xA5).vram ∧ written.address = 2 ∧
      written.readBlock? 0x3FFF 3 = some ([0xA5, 0xA5, 0xA5], read) := by
  obtain ⟨written, writing, -, fill, -, address, -, back⟩ :=
    @writeBlock?_eq_load { initial with latched := true, latch := 0x12 } 0x3FFF
      [0xA5, 0xA5, 0xA5] (by decide) (by decide)
  obtain ⟨read, reading, -⟩ := back Array.size_replicate (by decide)
  exact ⟨written, read, writing, fill 3 0xA5 rfl, address, reading⟩

end Z80Workbench.Video
