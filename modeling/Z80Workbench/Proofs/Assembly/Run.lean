import Z80Workbench.Assembly.Run
import Z80Workbench.Proofs.Code.LookUp
import Z80Workbench.Proofs.Fault
import Z80Workbench.Proofs.Memory
import Z80Workbench.Proofs.Walk.Numbering

/-!
# Z80Workbench.Proofs.Assembly.Run

Faults of an analysis.  Of all that the passes look up, only the name of an index register can be
missing; in particular every address of data has a byte in the image, whatever the lines in between
have stored.
-/

namespace Z80Workbench

open Text Source

/-! ## lines -/

namespace SourceLine

/-- The instruction of the line names no index register that is in no table. -/
def Tabled (line : SourceLine) : Prop :=
  ∀ m, line.operation = some (.mnemonic m) →
    (Instruction.ofArgs (.mnemonic m) line.args.toList).Tabled

/-- The fault is that of the line's instruction. -/
def Strays (line : SourceLine) (fault : Fault) : Prop :=
  ∃ m, line.operation = some (.mnemonic m) ∧
    (Instruction.ofArgs (.mnemonic m) line.args.toList).Strays fault

/-- The line's instruction looks up, before it reads anything, a register that is in no table. -/
def Misses (line : SourceLine) : Prop :=
  ∃ m, line.operation = some (.mnemonic m) ∧
    (Instruction.ofArgs (.mnemonic m) line.args.toList).Misses

end SourceLine

variable {fault : Fault} {line : SourceLine}

/-! ## layout -/

theorem Directive.size_of_reservesSpace {d : Directive} (h : d.reservesSpace = true)
    (symbols : Symbols) (args : List Char) :
    d.size symbols args =
      (((splitData args).head?.map Expr.read).bind (·.value? { symbols })).getD 0 := by
  cases d <;> first | rfl | cases h

theorem Operation.checkedSize_eq {operation : Operation} {args : List Char}
    (h : ∀ m, operation = .mnemonic m → (Instruction.ofArgs (.mnemonic m) args).Tabled)
    (symbols : Symbols) :
    operation.checkedSize symbols args = .ok (operation.size symbols args) := by
  cases operation with
  | mnemonic m =>
      rw [checkedSize, Instruction.checkedSize?_eq _ _ (h m rfl)]
      rfl
  | directive d =>
      have sized : (directive d).size symbols args = d.size symbols args := rfl
      rw [checkedSize, sized]
      split
      case isTrue space =>
          obtain ⟨operand, first, found⟩ := Fault.noOperand.exists_first (splitData_ne_nil args)
          rw [found, Directive.size_of_reservesSpace space, first]
          rfl
      case isFalse => rfl
  | unknown word => rfl

theorem Operation.strays_of_checkedSize {operation : Operation} {args : List Char}
    {symbols : Symbols} (h : operation.checkedSize symbols args = .error fault) :
    ∃ m, operation = .mnemonic m ∧ (Instruction.ofArgs (.mnemonic m) args).Strays fault := by
  cases operation with
  | mnemonic m =>
      rw [checkedSize] at h
      obtain hs | ⟨_, -, h⟩ := bind_eq_error.mp h
      · exact ⟨m, rfl, Instruction.strays_of_checkedSize? _ _ hs⟩
      · cases h
  | directive d =>
      obtain ⟨operand, -, found⟩ := Fault.noOperand.exists_first (splitData_ne_nil args)
      rw [checkedSize, found] at h
      split at h <;> cases h
  | unknown word => cases h

theorem Extent.checkedLine_eq (h : line.Tabled) (scope : Expr.Scope) (address : Int) :
    checkedLine scope address line = .ok (ofLine scope address line) := by
  have sized : ∀ operation, line.operation = some operation →
      operation.checkedSize scope.symbols line.args.toList =
        .ok (operation.size scope.symbols line.args.toList) := fun operation ho =>
    Operation.checkedSize_eq (fun m hm => h m (by rw [ho, hm])) scope.symbols
  unfold checkedLine ofLine
  split <;> simp_all [bind, Except.bind, pure, Except.pure]

theorem Extent.strays_of_checkedLine {scope : Expr.Scope} {address : Int}
    (h : checkedLine scope address line = .error fault) : line.Strays fault := by
  unfold checkedLine at h
  split at h
  case h_4 operation _ _ ho =>
      obtain hs | ⟨_, -, h⟩ := bind_eq_error.mp h
      · obtain ⟨m, rfl, strays⟩ := Operation.strays_of_checkedSize hs
        exact ⟨m, ho, strays⟩
      · cases h
  all_goals cases h

/-- A line that misses a register has no extent. -/
theorem Extent.checkedLine_ne_ok (h : line.Misses) {scope : Expr.Scope} {address : Int}
    (extent : Extent) : checkedLine scope address line ≠ .ok extent := by
  intro placed
  obtain ⟨m, ho, misses⟩ := h
  rw [checkedLine, ho] at placed
  obtain ⟨size, sized, -⟩ := bind_eq_ok.mp placed
  rw [Operation.checkedSize] at sized
  obtain ⟨size?, hs, -⟩ := bind_eq_ok.mp sized
  rw [Instruction.checkedSize?] at hs
  obtain ⟨code, encoded, -⟩ := bind_eq_ok.mp hs
  exact misses.checkedEncode_ne_ok code encoded

namespace Placement

theorem line_ofExtent (line : SourceLine) (extent : Extent) :
    (ofExtent line extent).line = line := by
  rw [ofExtent]
  split <;> rfl

/-- Only a constant without a value has no address. -/
theorem isSome_ofExtent {extent : Extent} (h : (ofExtent line extent).isEqu = false) :
    (ofExtent line extent).address.isSome = true := by
  rw [isEqu, line_ofExtent, decide_eq_false_iff_not] at h
  rw [ofExtent, if_neg h]
  rfl

end Placement

namespace Layout

variable {fallback : String → Option Int} {lines : List SourceLine}

theorem Scan.checkedNext_eq (h : line.Tabled) (scan : Scan) :
    scan.checkedNext fallback line = .ok (scan.next fallback line) := by
  rw [checkedNext, Extent.checkedLine_eq h]
  rfl

theorem Scan.strays_of_checkedNext {scan : Scan}
    (h : scan.checkedNext fallback line = .error fault) : line.Strays fault := by
  rw [checkedNext] at h
  obtain he | ⟨_, -, h⟩ := bind_eq_error.mp h
  · exact Extent.strays_of_checkedLine he
  · cases h

theorem checkedLines_eq (h : ∀ line ∈ lines, line.Tabled) :
    checkedLines fallback lines = .ok (ofLines fallback lines) := by
  rw [checkedLines,
    foldlM_eq_ok Scan.start fun line hl scan => Scan.checkedNext_eq (h line hl) scan]
  rfl

theorem strays_of_checkedLines (h : checkedLines fallback lines = .error fault) :
    ∃ line ∈ lines, line.Strays fault := by
  rw [checkedLines] at h
  obtain hf | ⟨_, -, h⟩ := bind_eq_error.mp h
  · obtain ⟨line, hl, scan, failed⟩ := exists_of_foldlM_eq_error hf
    exact ⟨line, hl, Scan.strays_of_checkedNext failed⟩
  · cases h

theorem not_misses_of_checkedLines {layout : Layout}
    (h : checkedLines fallback lines = .ok layout) (hl : line ∈ lines) : ¬ line.Misses := by
  intro misses
  rw [checkedLines] at h
  obtain ⟨_, hs, -⟩ := bind_eq_ok.mp h
  obtain ⟨scan, next, placed⟩ := exists_of_foldlM_eq_ok hs hl
  rw [Scan.checkedNext] at placed
  obtain ⟨extent, he, -⟩ := bind_eq_ok.mp placed
  exact Extent.checkedLine_ne_ok misses extent he

/-- Lines are placed one after the other, each at some extent. -/
theorem Scan.exists_extents {scan final : Scan}
    (h : lines.foldlM (Scan.checkedNext fallback) scan = .ok final) :
    ∃ extents : List (SourceLine × Extent), extents.map (·.1) = lines ∧
      final.placed.reverse =
        scan.placed.reverse ++ extents.map fun (line, extent) => .ofExtent line extent := by
  induction lines generalizing scan with
  | nil =>
      cases h
      exact ⟨[], rfl, by simp⟩
  | cons line rest ih =>
      rw [List.foldlM_cons] at h
      obtain ⟨next, hn, hr⟩ := bind_eq_ok.mp h
      obtain ⟨extents, hl, hp⟩ := ih hr
      rw [checkedNext] at hn
      obtain ⟨extent, -, hn⟩ := bind_eq_ok.mp hn
      cases hn
      refine ⟨(line, extent) :: extents, by rw [List.map_cons, hl], ?_⟩
      rw [hp, Scan.place, List.reverse_cons, List.append_assoc]
      rfl

/-- Every line is placed, in its order, and all but constants have an address. -/
theorem placements_of_checkedLines {layout : Layout}
    (h : checkedLines fallback lines = .ok layout) :
    layout.placements.map (·.line) = lines ∧
      ∀ p ∈ layout.placements, p.isEqu = false → p.address.isSome = true := by
  rw [checkedLines] at h
  obtain ⟨scan, hs, h⟩ := bind_eq_ok.mp h
  cases h
  obtain ⟨extents, hl, hp⟩ := Scan.exists_extents hs
  rw [hp, Scan.start, List.reverse_nil, List.nil_append]
  constructor
  · rw [List.map_map, ← hl]
    exact List.map_congr_left fun placed _ => Placement.line_ofExtent placed.1 placed.2
  · intro p mem
    obtain ⟨placed, -, rfl⟩ := List.mem_map.mp mem
    exact Placement.isSome_ofExtent

end Layout

/-! ## image -/

namespace Image

variable {setting : Setting} {p : Placement}

theorem checkedPlacement_eq (h : p.line.Tabled) :
    checkedPlacement setting p = .ok (ofPlacement setting p) := by
  unfold checkedPlacement
  split
  case h_1 m address ho ha =>
      have yields : ofPlacement setting p =
          ofInstruction setting p.line (.mnemonic m) address p.size := by rw [ofPlacement, ho, ha]
      dsimp only
      rw [Instruction.checkedEncode_eq _ _ (h m ho), yields]
      unfold ofInstruction
      simp only [bind, Except.bind]
      cases Instruction.encode _ _ <;> rfl
  case h_2 => rfl

theorem strays_of_checkedPlacement (h : checkedPlacement setting p = .error fault) :
    p.line.Strays fault := by
  unfold checkedPlacement at h
  split at h
  case h_1 m address ho ha =>
      obtain he | ⟨_, -, h⟩ := bind_eq_error.mp h
      · exact ⟨m, ho, Instruction.strays_of_checkedEncode _ _ he⟩
      · cases h
  case h_2 => cases h

/-- What keeps an instruction from being encoded is the error of its line. -/
theorem checkedPlacement_of_error {m : Mnemonic} {address : Nat} {cause : Cause}
    (ho : p.line.operation = some (.mnemonic m)) (ha : p.address = some address)
    (h : (Instruction.ofArgs (.mnemonic m) p.line.args.toList).checkedEncode
      { scope := setting.scope, address := some address } = .ok (.error cause)) :
    checkedPlacement setting p = .ok (ofCode setting p.line p.size (.error cause)) := by
  rw [checkedPlacement, ho, ha]
  simp only [h]
  rfl

/-! ## bytes of data -/

namespace Scan

variable {scan : Scan}

/-- Every address of data has a byte. -/
def Stored (scan : Scan) : Prop :=
  ∀ address ∈ scan.data, (scan.memory.get? address).isSome = true

theorem stored_start : Stored ⟨∅, ∅, []⟩ := fun _ h => absurd h Std.ExtTreeSet.not_mem_empty

/-- The addresses that a row fills have a byte once the row is stored. -/
theorem isSome_of_mem_filled {address other : Nat} {slots : List (Option Nat)}
    (h : other ∈ filled address slots) (m : Memory) :
    ((m.writeSlots address slots).get? other).isSome = true := by
  induction slots generalizing m address with
  | nil => cases h
  | cons slot rest ih =>
      cases slot with
      | none => exact ih h m
      | some b =>
          cases List.mem_cons.mp h with
          | inl he =>
              -- a later slot of the row may fill the same address round the end
              rw [Memory.writeSlots]
              refine Memory.isSome_writeSlots ?_ _ _
              rw [Memory.get?_set, if_pos (by rw [he, Nat.mod_mod])]
              rfl
          | inr hr => exact ih hr _

theorem mem_foldl_insert {address : Nat} (filled : List Nat) (data : Std.ExtTreeSet Nat) :
    address ∈ filled.foldl (·.insert ·) data ↔ address ∈ filled ∨ address ∈ data := by
  induction filled generalizing data with
  | nil => simp
  | cons first rest ih =>
      rw [List.foldl_cons, ih, Std.ExtTreeSet.mem_insert, List.mem_cons, Nat.compare_eq_eq,
        eq_comm, or_left_comm, or_assoc]

theorem Stored.store (h : scan.Stored) (line : SourceLine) (address : Nat) (e : Emission) :
    (scan.store line address e).Stored := by
  unfold Scan.store
  dsimp only
  split
  case isTrue =>
      intro other ho
      cases (mem_foldl_insert _ _).mp ho with
      | inl filled => exact isSome_of_mem_filled filled _
      | inr before => exact Memory.isSome_writeSlots (h other before) _ _
  case isFalse => exact fun other ho => Memory.isSome_writeSlots (h other ho) _ _

theorem Stored.next (h : scan.Stored) (placed : Placement × LineYield) :
    (scan.next placed).Stored := by
  unfold Scan.next
  split
  · exact h.store _ _ _
  · exact h

/-- Whatever the lines yield, every address of data has a byte in the end. -/
theorem Stored.foldl (h : scan.Stored) (yields : List (Placement × LineYield)) :
    (yields.foldl Scan.next scan).Stored := by
  induction yields generalizing scan with
  | nil => exact h
  | cons placed rest ih => exact ih (h.next placed)

end Scan

theorem checkedAlias?_eq {scan : Scan} (h : scan.Stored) (layout : Layout) (known : List String)
    (label : String) :
    checkedAlias? layout scan known label = .ok (aliasOf? layout scan known label) := by
  unfold checkedAlias? aliasOf?
  split
  · rfl
  cases layout.symbols.get? label with
  | none => rfl
  | some value =>
      cases value with
      | negSucc _ => rfl
      | ofNat address =>
          dsimp only
          split
          case isTrue data =>
              obtain ⟨value, found⟩ := Option.isSome_iff_exists.mp
                (h address (Std.ExtTreeSet.mem_iff_contains.mpr data))
              rw [found]
              rfl
          case isFalse => rfl

/-- The image of placed lines with what they yield, without the look-ups. -/
def ofYields (layout : Layout) (yields : List (Placement × LineYield)) : Image :=
  let scan := yields.foldl Scan.next ⟨∅, ∅, []⟩
  let namedData := scan.namedData.reverse
  { memory := scan.memory
    namedData := namedData ++
      layout.labels.keys.filterMap (aliasOf? layout scan (namedData.map (·.name)))
    lineBytes := yields.filterMap fun (p, y) => y.emission.map fun e => (p.line.number, e.bytes)
    diagnostics := ⟨yields.flatMap (·.2.errors), yields.flatMap (·.2.warnings)⟩ }

/-- **Every label that points into data finds its byte.** -/
theorem checkedYields_eq (layout : Layout) (yields : List (Placement × LineYield)) :
    checkedYields layout yields = .ok (ofYields layout yields) := by
  have stored := Scan.stored_start.foldl yields
  rw [checkedYields, mapM_eq_ok fun label _ => checkedAlias?_eq stored layout _ label, ofYields]
  simp only [bind, Except.bind, pure, Except.pure, List.filterMap_map]
  rfl

/-- Where the table has all names, the image is that of `ofLayout`. -/
theorem checkedLayout_eq {layout : Layout} (h : ∀ p ∈ layout.placements, p.line.Tabled)
    (fallback : String → Option Int) (file : String) :
    checkedLayout fallback file layout = .ok (ofLayout fallback file layout) := by
  have yields : layout.placements.mapM (fun p => do
        return (p, ← checkedPlacement ⟨⟨layout.symbols, fallback⟩, file⟩ p)) =
      (.ok (layout.placements.map fun p =>
        (p, ofPlacement ⟨⟨layout.symbols, fallback⟩, file⟩ p)) : Except Fault _) :=
    mapM_eq_ok fun p hp => by rw [checkedPlacement_eq (h p hp)]; rfl
  rw [checkedLayout, yields]
  exact checkedYields_eq layout _

theorem strays_of_checkedLayout {layout : Layout} {fallback : String → Option Int} {file : String}
    (h : checkedLayout fallback file layout = .error fault) :
    ∃ p ∈ layout.placements, p.line.Strays fault := by
  rw [checkedLayout] at h
  obtain hy | ⟨yields, -, h⟩ := bind_eq_error.mp h
  · obtain ⟨p, hp, failed⟩ := exists_of_mapM_eq_error hy
    obtain hc | ⟨_, -, failed⟩ := bind_eq_error.mp failed
    · exact ⟨p, hp, strays_of_checkedPlacement hc⟩
    · cases failed
  · rw [checkedYields_eq] at h
    cases h

/-- Whatever keeps an instruction from being encoded is among the errors of the image. -/
theorem error_mem_checkedLayout {layout : Layout} {image : Image} {fallback : String → Option Int}
    {file : String} (h : checkedLayout fallback file layout = .ok image)
    (hp : p ∈ layout.placements) {m : Mnemonic} {address : Nat} {cause : Cause}
    (ho : p.line.operation = some (.mnemonic m)) (ha : p.address = some address)
    (he : (Instruction.ofArgs (.mnemonic m) p.line.args.toList).checkedEncode
      { scope := ⟨layout.symbols, fallback⟩, address := some address } = .ok (.error cause)) :
    { cause
      location := some ⟨file, p.line.number, 0⟩
      sourceLine := some (trimString p.line.text) } ∈ image.diagnostics.errors := by
  rw [checkedLayout] at h
  obtain ⟨yields, hy, h⟩ := bind_eq_ok.mp h
  rw [checkedYields_eq] at h
  cases h
  obtain ⟨placed, mem, found⟩ := exists_of_mapM_eq_ok hy hp
  have refused : checkedPlacement ⟨⟨layout.symbols, fallback⟩, file⟩ p =
      .ok (ofCode ⟨⟨layout.symbols, fallback⟩, file⟩ p.line p.size (.error cause)) :=
    checkedPlacement_of_error ho ha he
  rw [refused] at found
  cases found
  exact List.mem_flatMap_of_mem mem List.mem_cons_self

end Image

/-! ## the whole run -/

namespace Analysis

variable {settings : Settings} {source file : String}

/-- The lines of a run are those that are parsed for the analysis. -/
theorem run_eq_bind : run settings source file = do
    let lines := (ofSource settings source file).parsed
    let layout ← Layout.checkedLines Firmware.address? lines
    let image ← Image.checkedLayout Firmware.address? file layout
    return {
      expansion := Repeat.expand settings source
      layout
      image
      findings := Aliasing.ofLayout layout
      steps := Step.ofLines ⟨layout.symbols, Firmware.address?⟩ lines } := by
  rw [run, checkedParse_eq]
  rfl

/-- Where the table has all names, the run comes to the analysis. -/
theorem run_eq (h : ∀ line ∈ (ofSource settings source file).parsed, line.Tabled) :
    run settings source file = .ok (ofSource settings source file) := by
  have placed : ∀ p ∈ (ofSource settings source file).layout.placements, p.line.Tabled := by
    intro p hp
    refine h p.line ?_
    rw [← map_line_placements]
    exact List.mem_map_of_mem hp
  rw [run_eq_bind]
  simp only [Layout.checkedLines_eq h, bind, Except.bind]
  have image := Image.checkedLayout_eq placed Firmware.address? file
  simp only [ofSource] at image
  simp only [parsed, ofSource, image]
  rfl

/-- What a run comes to has its layout and its image. -/
theorem run_eq_ok {a : Analysis} (h : run settings source file = .ok a) :
    Layout.checkedLines Firmware.address? (ofSource settings source file).parsed = .ok a.layout ∧
      Image.checkedLayout Firmware.address? file a.layout = .ok a.image := by
  rw [run_eq_bind] at h
  obtain ⟨layout, hl, h⟩ := bind_eq_ok.mp h
  obtain ⟨image, hi, h⟩ := bind_eq_ok.mp h
  cases h
  exact ⟨hl, hi⟩

/-- A run that fails does so for an index register that is in no table. -/
theorem strays_of_run (h : run settings source file = .error fault) :
    ∃ line ∈ (ofSource settings source file).parsed, line.Strays fault := by
  rw [run_eq_bind] at h
  obtain hl | ⟨layout, hl, h⟩ := bind_eq_error.mp h
  · exact Layout.strays_of_checkedLines hl
  obtain hi | ⟨image, -, h⟩ := bind_eq_error.mp h
  · obtain ⟨p, hp, strays⟩ := Image.strays_of_checkedLayout hi
    refine ⟨p.line, ?_, strays⟩
    rw [← (Layout.placements_of_checkedLines hl).1]
    exact List.mem_map_of_mem hp
  · cases h

/-- A run with a line that misses a register fails. -/
theorem exists_fault_of_misses (hl : line ∈ (ofSource settings source file).parsed)
    (misses : line.Misses) : ∃ fault, run settings source file = .error fault := by
  cases h : run settings source file with
  | error fault => exact ⟨fault, rfl⟩
  | ok a => exact absurd misses (Layout.not_misses_of_checkedLines (run_eq_ok h).1 hl)

/-- Every line of a run but a constant finds its address under its number. -/
theorem exists_address_of_run {a : Analysis} (h : run settings source file = .ok a)
    {p : Placement} (hp : p ∈ a.layout.placements) (he : p.isEqu = false) :
    ∃ address, p.address = some address ∧
      (Std.ExtTreeMap.ofList a.layout.addresses compare)[p.line.number]? = some address := by
  obtain ⟨lines, addressed⟩ := Layout.placements_of_checkedLines (run_eq_ok h).1
  obtain ⟨address, ha⟩ := Option.isSome_iff_exists.mp (addressed p hp he)
  have numbered := pairwise_parsed settings source file
  rw [← lines, List.pairwise_map] at numbered
  exact ⟨address, ha, Layout.getElem?_addresses numbered hp ha⟩

end Analysis

end Z80Workbench
