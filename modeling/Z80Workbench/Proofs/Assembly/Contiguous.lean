import Z80Workbench.Proofs.Assembly.Sections
import Z80Workbench.Proofs.Code.Boundaries

/-!
# Z80Workbench.Proofs.Assembly.Contiguous

Sources that are assembled into one block of memory.  From the first line that declares a label or
takes space, each line lies behind those before it, so that its address tells how many bytes they
reserve; only a line behind a block that fills the whole address space has the address of its start.
Every instruction takes space, so none lies between two lines with the same address.
-/

namespace Z80Workbench

/-! ## instructions take space -/

theorem Mnemonic.estimate_pos (m : Mnemonic) (args : List Char) : 1 ≤ m.estimate args := by
  unfold estimate estimateLoad
  split
  case h_5 =>
      dsimp only
      repeat' split
      all_goals decide
  all_goals decide

/-- A line that holds an instruction takes space, whether or not it can be encoded. -/
theorem Operation.size_pos {operation : Operation} {symbols : Symbols} {args : List Char}
    (he : operation.isExecutable = true) (known : operation.isKnown = true) :
    1 ≤ operation.size symbols args := by
  cases operation with
  | directive d => cases he
  | unknown word => cases known
  | mnemonic m =>
      cases hc : (Instruction.ofArgs (.mnemonic m) args).size? symbols with
      | none => simpa [size, hc] using m.estimate_pos args
      | some n =>
          unfold Instruction.size? at hc
          split at hc
          case h_1 bytes hb =>
              cases hc
              have := (Instruction.length_encode hb).1
              simpa [size, Instruction.size?, hb] using this
          case h_2 => contradiction

/-! ## bytes in front of a line -/

namespace Placement

/-- Whether the line declares a label or takes space. -/
def occupies (p : Placement) : Bool := p.size ≠ 0 || (!p.isEqu && p.line.labels ≠ [])

/-- The bytes that the lines before a number take. -/
def sizeBefore (ps : List Placement) (number : Nat) : Nat :=
  ((ps.filter (·.line.number < number)).map (·.size)).sum

variable {ps : List Placement} {p : Placement} {number other : Nat}

/-- An instruction is no constant. -/
theorem isEqu_of_executable (h : p.line.isExecutable = true) : p.isEqu = false := by
  rw [isEqu, decide_eq_false_iff_not]
  intro constant
  simp [SourceLine.isExecutable, constant, Operation.isExecutable] at h

@[simp] theorem sizeBefore_nil : sizeBefore [] number = 0 := rfl

@[simp] theorem sizeBefore_cons :
    sizeBefore (p :: ps) number =
      (if p.line.number < number then p.size else 0) + sizeBefore ps number := by
  by_cases h : p.line.number < number <;> simp [sizeBefore, h]

theorem sizeBefore_append (front back : List Placement) :
    sizeBefore (front ++ back) number = sizeBefore front number + sizeBefore back number := by
  simp [sizeBefore]

theorem sizeBefore_eq_zero (h : ∀ q ∈ ps, number ≤ q.line.number ∨ q.size = 0) :
    sizeBefore ps number = 0 := by
  induction ps with
  | nil => rfl
  | cons q rest ih =>
      have first := h q List.mem_cons_self
      rw [sizeBefore_cons, ih fun r hr => h r (List.mem_cons_of_mem q hr)]
      split <;> omega

theorem sizeBefore_mono (h : number ≤ other) : sizeBefore ps number ≤ sizeBefore ps other := by
  induction ps with
  | nil => simp
  | cons p rest ih =>
      simp only [sizeBefore_cons]
      split <;> split <;> omega

theorem sizeBefore_le : sizeBefore ps number ≤ (ps.map (·.size)).sum := by
  induction ps with
  | nil => simp
  | cons p rest ih =>
      simp only [sizeBefore_cons, List.map_cons, List.sum_cons]
      split <;> omega

/-- A line adds its size to what stands before every later line. -/
theorem sizeBefore_add_size (hp : p ∈ ps) (h : p.line.number < number) :
    sizeBefore ps p.line.number + p.size ≤ sizeBefore ps number := by
  induction ps with
  | nil => exact absurd hp List.not_mem_nil
  | cons q rest ih =>
      simp only [sizeBefore_cons]
      cases List.mem_cons.mp hp with
      | inl he =>
          subst he
          have : sizeBefore rest p.line.number ≤ sizeBefore rest number :=
            sizeBefore_mono (Nat.le_of_lt h)
          rw [if_neg (Nat.lt_irrefl _), if_pos h]
          omega
      | inr hr =>
          have := ih hr
          split <;> split <;> omega

/-- In a row, the address of a line tells how much stands before it. -/
theorem Row.address {start : Int} (h : Row start ps)
    (numbered : ps.Pairwise (·.line.number < ·.line.number)) (hp : p ∈ ps)
    (plain : p.isEqu = false) :
    p.address = some (word (start + sizeBefore ps p.line.number)) := by
  induction ps generalizing start with
  | nil => exact absurd hp List.not_mem_nil
  | cons q rest ih =>
      obtain ⟨first, later⟩ := List.pairwise_cons.mp numbered
      cases List.mem_cons.mp hp with
      | inl he =>
          have none : sizeBefore rest q.line.number = 0 :=
            sizeBefore_eq_zero fun r hr => .inl (Nat.le_of_lt (first r hr))
          subst he
          have lies := h.1.resolve_left (by simp [plain])
          simpa [none] using lies
      | inr hr =>
          have lies := ih h.2 later hr
          rw [lies, sizeBefore_cons, if_pos (first p hr)]
          push_cast
          rw [Int.add_assoc]

end Placement

/-! ## one block -/

namespace Layout

/-- The lines from the first one on that declares a label or takes space. -/
def body (layout : Layout) : List Placement := layout.placements.dropWhile (!·.occupies)

/-- The bytes that the lines before a number reserve. -/
def reserved (layout : Layout) (number : Nat) : Nat :=
  Placement.sizeBefore layout.placements number

/-- The source is assembled into one block of memory: it holds no unknown words, no `ORG` behind the
first line that declares a label or takes space, and no name that two lines bind, and its last byte
lies at or below the end of the address space. -/
structure IsBlock (layout : Layout) : Prop where
  known : ∀ p ∈ layout.placements, p.line.operation.all (·.isKnown) = true
  origin : ∀ p ∈ layout.body.tail, p.isOrg = false
  once : layout.BindsOnce
  fits : ∀ p ∈ layout.body.head?, ∀ start ∈ p.address,
    start + (layout.body.map (·.size)).sum ≤ 65536

instance (layout : Layout) : Decidable layout.IsBlock :=
  decidable_of_iff
    ((∀ p ∈ layout.placements, p.line.operation.all (·.isKnown) = true) ∧
      (∀ p ∈ layout.body.tail, p.isOrg = false) ∧ layout.BindsOnce ∧
      ∀ p ∈ layout.body.head?, ∀ start ∈ p.address,
        start + (layout.body.map (·.size)).sum ≤ 65536)
    ⟨fun ⟨known, origin, once, fits⟩ => ⟨known, origin, once, fits⟩,
      fun ⟨known, origin, once, fits⟩ => ⟨known, origin, once, fits⟩⟩

variable {layout : Layout} {p : Placement}

theorem mem_body (h : p ∈ layout.placements) (ho : p.occupies = true) : p ∈ layout.body := by
  rw [← List.takeWhile_append_dropWhile (p := fun q => !q.occupies) (l := layout.placements),
    List.mem_append] at h
  refine h.resolve_left fun hm => ?_
  have := List.mem_takeWhile_imp hm
  simp [ho] at this

/-- Nothing is reserved in front of the block. -/
theorem reserved_eq (layout : Layout) (number : Nat) :
    layout.reserved number = Placement.sizeBefore layout.body number := by
  have front : Placement.sizeBefore (layout.placements.takeWhile (!·.occupies)) number = 0 := by
    refine Placement.sizeBefore_eq_zero fun q hq => .inr ?_
    have := List.mem_takeWhile_imp hq
    simp [Placement.occupies] at this
    exact this.1
  rw [reserved, ← List.takeWhile_append_dropWhile (p := fun q => !q.occupies)
    (l := layout.placements), Placement.sizeBefore_append, front, Nat.zero_add, body]

/-! ## layouts of sources -/

variable {fallback : String → Option Int} {lines : List SourceLine}

/-- A line that holds an instruction takes space in the layout. -/
theorem size_pos (h : p ∈ (ofLines fallback lines).placements)
    (he : p.line.isExecutable = true) (known : p.line.operation.all (·.isKnown) = true) :
    1 ≤ p.size := by
  obtain ⟨before, line, after, -, rfl⟩ := exists_of_mem_placements h
  rw [Scan.line_placement] at he known
  cases ho : line.operation with
  | none => simp [SourceLine.isExecutable, ho] at he
  | some operation =>
      simp only [SourceLine.isExecutable, ho, Option.any_some, Option.all_some] at he known
      have noOrg : operation ≠ .directive .org := by
        rintro rfl
        cases he
      have noEqu : operation ≠ .directive .equ := by
        rintro rfl
        cases he
      simpa [Scan.placement, Placement.ofExtent, Extent.ofLine, ho, noOrg, noEqu] using
        Operation.size_pos he known

namespace IsBlock

variable (block : layout.IsBlock) (made : layout = ofLines fallback lines)
include block made

/-- The lines of the block lie one behind the other. -/
theorem exists_row : ∃ start, Placement.Row start layout.body := by
  have parts : Scan.start.placements fallback lines =
      layout.placements.takeWhile (!·.occupies) ++ layout.body ++ [] := by
    rw [List.append_nil, body, List.takeWhile_append_dropWhile, made, placements_ofLines]
  obtain ⟨scan, found, hf⟩ := Scan.exists_infix parts
  rw [hf]
  exact Scan.exists_row scan found (hf ▸ block.origin)

/-- No instruction stands between two lines with the same number of bytes before them. -/
theorem le_of_executable (h : p ∈ layout.placements) (he : p.line.isExecutable = true)
    {first last : Nat} (same : layout.reserved first = layout.reserved last)
    (low : first ≤ p.line.number) : last ≤ p.line.number := by
  have space := size_pos (made ▸ h) he (block.known p h)
  by_contra high
  have before := @Placement.sizeBefore_mono layout.placements _ _ low
  have behind := Placement.sizeBefore_add_size h (Nat.lt_of_not_le high)
  unfold reserved at same
  omega

/-- An instruction is part of the block. -/
theorem mem_of_executable (h : p ∈ layout.placements) (he : p.line.isExecutable = true) :
    p ∈ layout.body := by
  have space := size_pos (made ▸ h) he (block.known p h)
  exact mem_body h (by simp [Placement.occupies, Nat.one_le_iff_ne_zero.mp space])

variable (numbered : layout.placements.Pairwise (·.line.number < ·.line.number))
include numbered

/-- A line of the block that is no constant has the address that the bytes before it lead to. -/
theorem exists_start :
    ∃ start : Nat, start + (layout.body.map (·.size)).sum ≤ 65536 ∧
      ∀ p ∈ layout.body, p.isEqu = false →
        p.address = some ((start + layout.reserved p.line.number) % 65536) := by
  obtain ⟨start, row⟩ := block.exists_row made
  cases hb : layout.body with
  | nil => exact ⟨0, by simp, nofun⟩
  | cons first rest =>
      -- the first line of the block is no constant, and lies at its start
      have occupied : first.occupies = true := by
        have head := List.head?_dropWhile_not (!·.occupies) layout.placements
        rw [← body, hb] at head
        simpa using head
      have lies : first.address = some (word start) := by
        refine (hb ▸ row).1.resolve_left fun constant => ?_
        simp [Placement.occupies, constant] at occupied
      have fits := block.fits first (by simp [hb]) _ lies
      have sorted : (first :: rest).Pairwise (·.line.number < ·.line.number) := by
        rw [← hb]
        exact numbered.sublist (List.dropWhile_sublist _)
      refine ⟨word start, hb ▸ fits, fun p hp plain => ?_⟩
      have placed := (hb ▸ row).address sorted hp plain
      rw [placed, reserved_eq, hb, word, word]
      congr 1
      omega

/-- Before an instruction, less than the address space is reserved. -/
theorem reserved_lt (h : p ∈ layout.placements) (he : p.line.isExecutable = true) :
    layout.reserved p.line.number < 65536 := by
  obtain ⟨start, fits, -⟩ := block.exists_start made numbered
  have space := size_pos (made ▸ h) he (block.known p h)
  have behind := Placement.sizeBefore_add_size (block.mem_of_executable made h he)
    (Nat.lt_add_one p.line.number)
  have total := @Placement.sizeBefore_le layout.body (p.line.number + 1)
  rw [reserved_eq]
  omega

/-- Lines of the block with the same address have the same number of bytes before them, unless one
of them lies behind a block that fills the address space. -/
theorem reserved_eq_of_address {q : Placement} (hp : p ∈ layout.body) (hq : q ∈ layout.body)
    (plain : p.isEqu = false) (plain' : q.isEqu = false)
    (room : layout.reserved p.line.number < 65536) (room' : layout.reserved q.line.number < 65536)
    (same : p.address = q.address) :
    layout.reserved p.line.number = layout.reserved q.line.number := by
  obtain ⟨start, fits, lies⟩ := block.exists_start made numbered
  have within (number : Nat) : layout.reserved number ≤ (layout.body.map (·.size)).sum := by
    rw [reserved_eq]
    exact Placement.sizeBefore_le
  have first := within p.line.number
  have second := within q.line.number
  rw [lies p hp plain, lies q hq plain', Option.some.injEq] at same
  omega

end IsBlock

end Layout

end Z80Workbench
