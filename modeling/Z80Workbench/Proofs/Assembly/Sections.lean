import Mathlib.Algebra.GroupWithZero.Nat
import Mathlib.Data.List.SplitBy
import Z80Workbench.Proofs.Assembly.Binding
import Z80Workbench.Proofs.Assembly.Yield
import Z80Workbench.Proofs.Memory

/-!
# Z80Workbench.Proofs.Assembly.Sections

Lines in memory.  From one `ORG` to the next, lines lie one behind the other, so that they reserve
different addresses as long as a section fits into the address space.  Every line stores its bytes
at addresses that it reserves; what it stores in a section that nothing else runs into is what the
image holds in the end.
-/

namespace Z80Workbench

namespace Placement

/-- Whether the line sets the address counter. -/
def isOrg (p : Placement) : Bool := p.line.operation = some (.directive .org)

/-- The line reserves an address. -/
def Reserves (p : Placement) (address : Nat) : Prop :=
  ∃ start, p.address = some start ∧ ∃ i < p.size, address % 65536 = (start + i) % 65536

/-- Two lines have no address in common. -/
def Apart (p q : Placement) : Prop := ∀ address, ¬ (p.Reserves address ∧ q.Reserves address)

/-- Lines that lie one behind the other from an address on.  Lines without a size, such as
constants, lie anywhere. -/
def Run (start : Int) : List Placement → Prop
  | [] => True
  | p :: rest => (p.size = 0 ∨ p.address = some (word start)) ∧ Run (start + p.size) rest

/-- Lines that lie one behind the other, those without a size among them.  Only constants lie
anywhere. -/
def Row (start : Int) : List Placement → Prop
  | [] => True
  | p :: rest =>
    (p.isEqu = true ∧ p.size = 0 ∨ p.address = some (word start)) ∧ Row (start + p.size) rest

/-! ## lines one behind the other -/

theorem Row.run {start : Int} {ps : List Placement} (h : Row start ps) : Run start ps := by
  induction ps generalizing start with
  | nil => trivial
  | cons p rest ih => exact ⟨h.1.imp_left (·.2), ih h.2⟩

/-- Only the word of the start matters. -/
theorem Row.congr {start other : Int} {ps : List Placement} (h : Row start ps)
    (hw : start % 65536 = other % 65536) : Row other ps := by
  induction ps generalizing start other with
  | nil => trivial
  | cons p rest ih =>
      refine ⟨?_, ih h.2 (by omega)⟩
      rw [word, ← hw]
      exact h.1

/-- Behind some lines, a row goes on where they end. -/
theorem Row.append {start : Int} {ps qs : List Placement} (h : Row start (ps ++ qs)) :
    Row (start + (ps.map (·.size)).sum) qs := by
  induction ps generalizing start with
  | nil => simpa using h
  | cons p rest ih =>
      rw [List.map_cons, List.sum_cons, Int.natCast_add, ← Int.add_assoc]
      exact ih h.2

/-- An address that one of the lines reserves lies within their sizes from the start. -/
theorem Run.exists_offset {start : Int} {ps : List Placement} (h : Run start ps) {p : Placement}
    (hp : p ∈ ps) {address : Nat} (hr : p.Reserves address) :
    ∃ k < (ps.map (·.size)).sum, ((address : Int) - start - k) % 65536 = 0 := by
  induction ps generalizing start with
  | nil => exact absurd hp List.not_mem_nil
  | cons q rest ih =>
      rw [List.map_cons, List.sum_cons]
      cases List.mem_cons.mp hp with
      | inl he =>
          obtain ⟨first, hf, i, hi, ha⟩ := hr
          rw [he] at hf hi
          have hs : q.address = some (word start) := h.1.resolve_left (by omega)
          rw [hf, Option.some.injEq] at hs
          refine ⟨i, by omega, ?_⟩
          rw [hs, word] at ha
          omega
      | inr hm =>
          obtain ⟨k, hk, ha⟩ := ih h.2 hm
          exact ⟨q.size + k, by omega, by push_cast; omega⟩

/-- Lines one behind the other have no addresses in common if all of them fit into the address
space. -/
theorem Run.pairwise {start : Int} {ps : List Placement} (h : Run start ps)
    (hs : (ps.map (·.size)).sum ≤ 65536) : ps.Pairwise Apart := by
  induction ps generalizing start with
  | nil => exact List.Pairwise.nil
  | cons p rest ih =>
      rw [List.map_cons, List.sum_cons] at hs
      refine List.Pairwise.cons (fun q hq address hr => ?_) (ih h.2 (by omega))
      obtain ⟨first, hf, i, hi, ha⟩ := hr.1
      have hp : p.address = some (word start) := h.1.resolve_left (by omega)
      rw [hf, Option.some.injEq] at hp
      obtain ⟨k, hk, hb⟩ := h.2.exists_offset hq hr.2
      rw [hp, word] at ha
      omega

end Placement

/-! ## sections -/

namespace Layout

/-- The lines from one `ORG` to the next. -/
def sections (layout : Layout) : List (List Placement) :=
  layout.placements.splitBy fun _ next => !next.isOrg

namespace Scan

variable {fallback : String → Option Int}

/-- A line that sets no address lies at the counter, unless it is a constant, and moves the counter
on by its size. -/
theorem row_step (scan : Scan) (line : SourceLine)
    (h : (scan.placement fallback line).isOrg = false) :
    ((scan.placement fallback line).isEqu = true ∧ (scan.placement fallback line).size = 0 ∨
      (scan.placement fallback line).address = some (word scan.counter)) ∧
    (scan.next fallback line).counter % 65536 =
      (scan.counter + (scan.placement fallback line).size) % 65536 := by
  rw [Placement.isOrg, line_placement, decide_eq_false_iff_not] at h
  unfold placement next Placement.ofExtent Extent.ofLine
  cases ho : line.operation with
  | none => simp
  | some operation =>
      by_cases he : operation = .directive .equ
      · simp [he, ho, Placement.isEqu]
      · have hn : operation ≠ .directive .org := fun hc => h (by rw [ho, hc])
        simp [he]

/-- An `ORG` takes no space. -/
theorem size_org (scan : Scan) (line : SourceLine)
    (h : (scan.placement fallback line).isOrg = true) :
    (scan.placement fallback line).size = 0 := by
  rw [Placement.isOrg, line_placement, decide_eq_true_eq] at h
  simp [placement, Placement.ofExtent, Extent.ofLine, h]

/-- A data directive has the size that it had with the symbols of the lines before it. -/
theorem sized_placement (scan : Scan) (line : SourceLine) :
    (scan.placement fallback line).Sized := by
  intro d hd horg hequ
  rw [line_placement] at hd
  refine ⟨scan.symbols, ?_⟩
  simp [placement, Placement.ofExtent, Extent.ofLine, hd, hequ, horg, Operation.size,
    Operation.estimate]

/-- An `ORG` lies where it sets the counter. -/
theorem address_org (scan : Scan) (line : SourceLine)
    (h : (scan.placement fallback line).isOrg = true) :
    (scan.placement fallback line).address = some (word (scan.next fallback line).counter) := by
  rw [Placement.isOrg, line_placement, decide_eq_true_eq] at h
  simp [placement, next, Placement.ofExtent, Extent.ofLine, h]

/-- Lines without an `ORG` lie one behind the other. -/
theorem row_placements (scan : Scan) (lines : List SourceLine)
    (h : ∀ p ∈ scan.placements fallback lines, p.isOrg = false) :
    Placement.Row scan.counter (scan.placements fallback lines) := by
  induction lines generalizing scan with
  | nil => trivial
  | cons line rest ih =>
      obtain ⟨hp, hc⟩ := row_step scan line (h _ List.mem_cons_self)
      have tail := ih (scan.next fallback line) fun p hm => h p (List.mem_cons_of_mem _ hm)
      exact ⟨hp, tail.congr hc⟩

/-- Some lines, of which only the first may be an `ORG`, lie one behind the other. -/
theorem exists_row (scan : Scan) (lines : List SourceLine)
    (h : ∀ p ∈ (scan.placements fallback lines).tail, p.isOrg = false) :
    ∃ start, Placement.Row start (scan.placements fallback lines) := by
  cases lines with
  | nil => exact ⟨0, trivial⟩
  | cons line rest =>
      have tail := row_placements (scan.next fallback line) rest h
      cases ho : (scan.placement fallback line).isOrg with
      | true =>
          have hz := size_org scan line ho
          exact ⟨(scan.next fallback line).counter, .inr (address_org scan line ho),
            tail.congr (by simp [hz])⟩
      | false =>
          obtain ⟨hp, hc⟩ := row_step scan line ho
          exact ⟨scan.counter, hp, tail.congr hc⟩

/-- Placements in the middle of others are those of some lines after others. -/
theorem exists_infix {scan : Scan} {lines : List SourceLine} {front middle back : List Placement}
    (h : scan.placements fallback lines = front ++ middle ++ back) :
    ∃ (other : Scan) (some : List SourceLine), middle = other.placements fallback some := by
  induction front generalizing scan lines with
  | nil =>
      rw [List.nil_append] at h
      refine ⟨scan, ?_⟩
      induction middle generalizing scan lines with
      | nil => exact ⟨[], rfl⟩
      | cons p rest ih =>
          cases lines with
          | nil => contradiction
          | cons line more =>
              obtain ⟨hp, hr⟩ := List.cons.inj h
              obtain ⟨found, hf⟩ := ih hr
              exact ⟨line :: found, by rw [placements, hp, hf]⟩
  | cons p rest ih =>
      cases lines with
      | nil => contradiction
      | cons line more => exact ih (List.cons.inj h).2

end Scan

variable {fallback resolve : String → Option Int} {lines : List SourceLine}

/-- Only the first line of a section may be an `ORG`. -/
theorem isOrg_of_mem_tail {layout : Layout} {part : List Placement} (h : part ∈ layout.sections) :
    ∀ p ∈ part.tail, p.isOrg = false := by
  have chain := List.isChain_of_mem_splitBy h
  cases part with
  | nil => simp
  | cons p rest =>
      rw [List.tail_cons]
      clear h
      induction rest generalizing p with
      | nil => simp
      | cons q more ih =>
          rw [List.isChain_cons_cons] at chain
          intro r hr
          cases List.mem_cons.mp hr with
          | inl he => rw [he]; simpa using chain.1
          | inr hm => exact ih q chain.2 r hm

/-- The sections together are the lines. -/
theorem flatten_sections (layout : Layout) : layout.sections.flatten = layout.placements :=
  List.flatten_splitBy _ _

/-- The lines of a section lie one behind the other. -/
theorem exists_run {part : List Placement} (h : part ∈ (ofLines fallback lines).sections) :
    ∃ start, Placement.Run start part := by
  obtain ⟨before, after, hs⟩ := List.append_of_mem h
  have flat := flatten_sections (ofLines fallback lines)
  rw [hs, List.flatten_append, List.flatten_cons, ← List.append_assoc, placements_ofLines] at flat
  obtain ⟨scan, found, hf⟩ := Scan.exists_infix flat.symm
  rw [hf]
  obtain ⟨start, row⟩ := Scan.exists_row scan found (hf ▸ isOrg_of_mem_tail h)
  exact ⟨start, row.run⟩

/-- Every data directive has the size that it had with the symbols of the lines before it. -/
theorem sized_of_mem {p : Placement} (h : p ∈ (ofLines fallback lines).placements) : p.Sized := by
  obtain ⟨before, line, after, _, rfl⟩ := exists_of_mem_placements h
  exact Scan.sized_placement _ line

/-- What the lines of a layout are assembled with. -/
def setting (layout : Layout) (resolve : String → Option Int) (file : String) : Image.Setting :=
  ⟨⟨layout.symbols, resolve⟩, file⟩

end Layout

/-! ## storing -/

namespace Image

/-- A line and what it yields. -/
def yielded (setting : Setting) (p : Placement) : Placement × LineYield :=
  (p, ofPlacement setting p)

namespace Scan

theorem memory_store (scan : Scan) (line : SourceLine) (address : Nat) (e : Emission) :
    (scan.store line address e).memory = scan.memory.writeSlots address e.slots := by
  unfold store
  dsimp only
  split <;> rfl

variable {setting : Setting} {p : Placement} {address : Nat}

/-- A line changes no address that it does not reserve. -/
theorem get?_next (scan : Scan)
    (hl : ∀ e, (ofPlacement setting p).emission = some e → e.slots.length = p.size)
    (h : ¬ p.Reserves address) :
    (scan.next (yielded setting p)).memory.get? address = scan.memory.get? address := by
  unfold next yielded
  dsimp only
  split
  case h_1 start e ha he =>
      rw [memory_store]
      refine Memory.get?_writeSlots_of_ne _ _ _ fun i hi hc => h ⟨start, ha, i, ?_, hc⟩
      rw [← hl e he]
      exact hi
  case h_2 => rfl

/-- Lines change no address that none of them reserves. -/
theorem get?_foldl (scan : Scan) (ps : List Placement)
    (hl : ∀ p ∈ ps, ∀ e, (ofPlacement setting p).emission = some e → e.slots.length = p.size)
    (h : ∀ p ∈ ps, ¬ p.Reserves address) :
    ((ps.map (yielded setting)).foldl next scan).memory.get? address =
      scan.memory.get? address := by
  induction ps generalizing scan with
  | nil => rfl
  | cons p rest ih =>
      rw [List.map_cons, List.foldl_cons, ih _ (fun q hq => hl q (List.mem_cons_of_mem p hq))
          fun q hq => h q (List.mem_cons_of_mem p hq),
        get?_next scan (hl p List.mem_cons_self) (h p List.mem_cons_self)]

end Scan

end Image

namespace Layout

variable {fallback resolve : String → Option Int} {lines : List SourceLine} {file : String}

/-- The image warns of nothing that its lines do not warn of, and keeps all of it. -/
theorem warnings_ofLayout (layout : Layout) :
    (Image.ofLayout resolve file layout).diagnostics.warnings =
      layout.placements.flatMap fun p =>
        (Image.ofPlacement (layout.setting resolve file) p).warnings := by
  simp only [Image.ofLayout, List.flatMap_map]
  rfl

theorem memory_ofLayout (layout : Layout) :
    (Image.ofLayout resolve file layout).memory =
      ((layout.placements.map (Image.yielded (layout.setting resolve file))).foldl Image.Scan.next
        ⟨∅, ∅, []⟩).memory := rfl

/-- No line of the image has code of another size than was reserved for it. -/
def Quiet (layout : Layout) (resolve : String → Option Int) (file : String) : Prop :=
  ∀ line length reserved, Image.sizeWarning line length reserved ∉
    (Image.ofLayout resolve file layout).diagnostics.warnings

/-- Without a warning about sizes, every line that stores anything has as many slots as its size
says, and they hold bytes. -/
theorem Quiet.slots (quiet : (ofLines fallback lines).Quiet resolve file) {p : Placement}
    (hp : p ∈ (ofLines fallback lines).placements) {e : Emission}
    (he : (Image.ofPlacement ((ofLines fallback lines).setting resolve file) p).emission =
      some e) : e.slots.length = p.size ∧ e.HoldsBytes := by
  refine Image.slots_ofPlacement (sized_of_mem hp) he fun length reserved hw => ?_
  refine quiet p.line length reserved ?_
  rw [warnings_ofLayout]
  exact List.mem_flatMap.mpr ⟨p, hp, hw⟩

/-- Lines of a section that fits into the address space have no address in common. -/
theorem pairwise_apart {part : List Placement} (h : part ∈ (ofLines fallback lines).sections)
    (hs : (part.map (·.size)).sum ≤ 65536) : part.Pairwise Placement.Apart := by
  obtain ⟨start, hr⟩ := exists_run h
  exact hr.pairwise hs

/-- The slots of a line are what the image holds there, if no other line reserves the address. -/
theorem get?_image (quiet : (ofLines fallback lines).Quiet resolve file)
    {front back : List Placement} {p : Placement}
    (hp : (ofLines fallback lines).placements = front ++ p :: back) (hs : p.size ≤ 65536)
    {start i : Nat} {e : Emission} {slot : Option Nat} (ha : p.address = some start)
    (he : (Image.ofPlacement ((ofLines fallback lines).setting resolve file) p).emission = some e)
    (hi : e.slots[i]? = some slot) (hf : ∀ q ∈ front, ¬ q.Reserves (start + i))
    (hb : ∀ q ∈ back, ¬ q.Reserves (start + i)) :
    (Image.ofLayout resolve file (ofLines fallback lines)).memory.get? (start + i) = slot := by
  have length : ∀ q ∈ front ++ p :: back, ∀ e,
      (Image.ofPlacement ((ofLines fallback lines).setting resolve file) q).emission = some e →
        e.slots.length = q.size := by
    intro q hq e hy
    exact (quiet.slots (hp ▸ hq) hy).1
  obtain ⟨hl, bytes⟩ := quiet.slots (hp ▸ List.mem_append_right _ List.mem_cons_self) he
  rw [memory_ofLayout, hp, List.map_append, List.map_cons, List.foldl_append, List.foldl_cons,
    Image.Scan.get?_foldl _ back
      (fun q hq => length q (List.mem_append_right _ (List.mem_cons_of_mem p hq))) hb]
  have step : ∀ scan : Image.Scan,
      (scan.next (Image.yielded ((ofLines fallback lines).setting resolve file) p)).memory =
        scan.memory.writeSlots start e.slots := by
    intro scan
    rw [Image.Scan.next, Image.yielded]
    simp only [ha, he]
    exact Image.Scan.memory_store scan p.line start e
  rw [step, Memory.get?_writeSlots _ _ (by omega) hi,
    Image.Scan.get?_foldl _ front (fun q hq => length q (List.mem_append_left _ hq)) hf,
    Memory.get?_empty, Option.or_none]
  cases slot with
  | none => rfl
  | some b => rw [Option.map_some, Nat.mod_eq_of_lt (bytes b (List.mem_of_getElem? hi))]

/-- In a source whose code has the sizes reserved for it, every line stores its bytes at addresses
that it reserves, the lines of a section that fits into the address space have no address in
common, and the image holds what a line of such a section stores, slot by slot, wherever no line of
another section reserves the address. -/
theorem sections_hold (quiet : (ofLines fallback lines).Quiet resolve file) :
    (∀ p ∈ (ofLines fallback lines).placements,
      (∀ e, (Image.ofPlacement ((ofLines fallback lines).setting resolve file) p).emission =
        some e → e.slots.length = p.size) ∧
      ∀ (scan : Image.Scan) address, ¬ p.Reserves address →
        (scan.next (Image.yielded ((ofLines fallback lines).setting resolve file) p)).memory.get?
          address = scan.memory.get? address) ∧
    (∀ part ∈ (ofLines fallback lines).sections, (part.map (·.size)).sum ≤ 65536 →
      part.Pairwise Placement.Apart) ∧
    ∀ before part after, (ofLines fallback lines).sections = before ++ part :: after →
      (part.map (·.size)).sum ≤ 65536 → ∀ p ∈ part, ∀ start e i slot,
      p.address = some start →
      (Image.ofPlacement ((ofLines fallback lines).setting resolve file) p).emission = some e →
      e.slots[i]? = some slot →
      (∀ other ∈ before ++ after, ∀ q ∈ other, ¬ q.Reserves (start + i)) →
      (Image.ofLayout resolve file (ofLines fallback lines)).memory.get? (start + i) = slot := by
  refine ⟨fun p hp => ?_, fun part => pairwise_apart, ?_⟩
  · have length : ∀ e,
        (Image.ofPlacement ((ofLines fallback lines).setting resolve file) p).emission = some e →
          e.slots.length = p.size := fun e he => (quiet.slots hp he).1
    exact ⟨length, fun scan address => Image.Scan.get?_next scan length⟩
  · intro before part after hsec hs p hp start e i slot ha he hi alone
    have flat := flatten_sections (ofLines fallback lines)
    rw [hsec, List.flatten_append, List.flatten_cons] at flat
    obtain ⟨front, back, rfl⟩ := List.append_of_mem hp
    have apart := pairwise_apart (hsec ▸ List.mem_append_right _ List.mem_cons_self) hs
    have hmem : p ∈ (ofLines fallback lines).placements := by
      rw [← flat]
      simp
    have mine : p.Reserves (start + i) := by
      refine ⟨start, ha, i, ?_, rfl⟩
      rw [← (quiet.slots hmem he).1]
      exact (List.getElem?_eq_some_iff.mp hi).1
    have hsize : p.size ≤ 65536 := by
      simp only [List.map_append, List.map_cons, List.sum_append, List.sum_cons] at hs
      omega
    rw [List.pairwise_append, List.pairwise_cons] at apart
    have split : (ofLines fallback lines).placements =
        (before.flatten ++ front) ++ p :: (back ++ after.flatten) := by
      rw [← flat]
      simp
    refine get?_image quiet split hsize ha he hi ?_ ?_
    · intro q hq hr
      cases List.mem_append.mp hq with
      | inl hm =>
          obtain ⟨other, ho, hqo⟩ := List.mem_flatten.mp hm
          exact alone other (List.mem_append_left _ ho) q hqo hr
      | inr hm => exact apart.2.2 q hm p List.mem_cons_self (start + i) ⟨hr, mine⟩
    · intro q hq hr
      cases List.mem_append.mp hq with
      | inl hm => exact apart.2.1.1 q hm (start + i) ⟨mine, hr⟩
      | inr hm =>
          obtain ⟨other, ho, hqo⟩ := List.mem_flatten.mp hm
          exact alone other (List.mem_append_right _ ho) q hqo hr

/-- A section with a byte that cannot be resolved between two that can. -/
def gapLines : List SourceLine :=
  [⟨1, "  ORG #100", [], some (.directive .org), "#100"⟩,
   ⟨2, "TABLE: DB 1,NOWHERE,2", ["TABLE"], some (.directive .db), "1,NOWHERE,2"⟩]

theorem sections_hold_gap :
    let layout := ofLines (fun _ => none) gapLines
    let image := Image.ofLayout (fun _ => none) "" layout
    layout.Quiet (fun _ => none) "" ∧ image.memory.get? 0x100 = some 1 ∧
      image.memory.get? 0x101 = none ∧ image.memory.get? 0x102 = some 2 := by
  have quiet : (ofLines (fun _ => none) gapLines).Quiet (fun _ => none) "" := by
    intro line length reserved
    have silent : (Image.ofLayout (fun _ => none) ""
        (ofLines (fun _ => none) gapLines)).diagnostics.warnings = [] := by decide +kernel
    rw [silent]
    exact List.not_mem_nil
  let table : Placement := ⟨⟨2, "TABLE: DB 1,NOWHERE,2", ["TABLE"], some (.directive .db),
    "1,NOWHERE,2"⟩, some 0x100, 3⟩
  have held : ∀ i slot, [some 1, none, some 2][i]? = some slot →
      (Image.ofLayout (fun _ => none) "" (ofLines (fun _ => none) gapLines)).memory.get?
        (0x100 + i) = slot := by
    intro i slot hi
    exact (sections_hold quiet).2.2 [] (ofLines (fun _ => none) gapLines).placements []
      (by decide +kernel) (by decide +kernel) table (by decide +kernel) 0x100
      ⟨.bytes, [some 1, none, some 2]⟩ i slot (by decide +kernel) (by decide +kernel) hi
      (fun _ h => absurd h List.not_mem_nil)
  exact ⟨quiet, held 0 _ rfl, held 1 _ rfl, held 2 _ rfl⟩

end Layout

end Z80Workbench
