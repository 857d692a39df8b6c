import Z80Workbench.Proofs.Assembly.Binding
import Z80Workbench.Proofs.Expansion
import Z80Workbench.Walk.Program

/-!
# Z80Workbench.Proofs.Walk.Addressed

The program of an analysed source.  It reads the expanded lines one by one, the layout read the
text that they were joined to; both see the same lines, so that every line that can be executed
has an address.
-/

namespace Z80Workbench

open Text

/-- A line has the number that it is read with. -/
theorem Source.number_parseLine? {number : Nat} {text : String} {line : SourceLine}
    (h : parseLine? number text = some line) : line.number = number := by
  unfold parseLine? at h
  split at h
  · contradiction
  · cases h
    rfl

/-! ## lines of a layout -/

namespace Layout

variable {lines : List SourceLine} {line : SourceLine}

/-- A line that can be executed has an address. -/
theorem exists_address (fallback : String → Option Int) (h : line ∈ lines)
    (he : line.isExecutable = true) :
    ∃ address, (line.number, address) ∈ (ofLines fallback lines).addresses := by
  rw [← Scan.map_line_placements fallback Scan.start lines,
    ← placements_ofLines] at h
  obtain ⟨p, hp, rfl⟩ := List.mem_map.mp h
  have hne : p.line.operation ≠ some (.directive .equ) := by
    intro hq
    rw [SourceLine.isExecutable, hq] at he
    contradiction
  obtain ⟨address, ha⟩ := Option.isSome_iff_exists.mp (isSome_address hp hne)
  exact ⟨address, List.mem_filterMap.mpr ⟨p, hp, by rw [ha]; rfl⟩⟩

end Layout

namespace Program

variable {settings : Settings} {lines : List String} {labels : Labels} {symbols : Symbols}
  {image : Memory} {addresses : List (Nat × Nat)}

/-- An executable line is read from the text at its place. -/
theorem line?_ofLines {number : Nat} {line : CodeLine}
    (h : (ofLines settings lines labels symbols image addresses).line? number = some line) :
    ∃ i text, number = i + 1 ∧ lines[i]? = some text ∧
      codeLine? (.ofList addresses) text number = some line := by
  unfold line? at h
  split at h
  case isTrue => contradiction
  case isFalse hn =>
      have hf := Option.join_eq_some_iff.mp h
      rw [ofLines, List.getElem?_toArray, List.getElem?_map, List.getElem?_zipIdx] at hf
      obtain ⟨found, hz, hc⟩ := Option.map_eq_some_iff.mp hf
      obtain ⟨text, ht, rfl⟩ := Option.map_eq_some_iff.mp hz
      have he : 1 + (number - 1) = number := by omega
      rw [he] at hc
      exact ⟨number - 1, text, by omega, ht, hc⟩

/-- An executable line has been read from a text, and has the address that the table gives to its
number. -/
theorem codeLine?_eq_some {table : Std.ExtTreeMap Nat Nat} {text : String} {number : Nat}
    {line : CodeLine} (h : codeLine? table text number = some line) :
    ∃ found operation, Source.parseLine? number text = some found ∧ found.isExecutable = true ∧
      line = ⟨Instruction.ofArgs operation found.args.toList, table[number]?⟩ := by
  unfold codeLine? at h
  split at h
  case h_1 found hp =>
      split at h
      case isTrue he =>
          obtain ⟨i, hi, rfl⟩ := Option.map_eq_some_iff.mp h
          obtain ⟨operation, _, rfl⟩ := Option.map_eq_some_iff.mp hi
          exact ⟨found, operation, hp, he, rfl⟩
      case isFalse => contradiction
  case h_2 => contradiction

/-- Every executable line has an address. -/
def Addressed (p : Program) : Prop :=
  ∀ ⦃number line⦄, p.line? number = some line → line.address.isSome

/-- The operands of an executable line have been read from texts. -/
theorem exists_of_target {number : Nat} {line : CodeLine}
    (h : (ofLines settings lines labels symbols image addresses).line? number = some line)
    {operand : Operand} (ht : line.instruction.target? = some operand) :
    ∃ text, operand = Operand.parse text := by
  obtain ⟨i, text, _, _, hc⟩ := line?_ofLines h
  obtain ⟨found, operation, _, _, rfl⟩ := codeLine?_eq_some hc
  obtain ⟨part, _, he⟩ := List.mem_map.mp (List.mem_of_getLast? ht)
  exact ⟨part, he.symm⟩

/-- The lines of the program of an analysed source have addresses. -/
theorem addressed_ofAnalysis (settings other : Settings) (source file : String) :
    (ofAnalysis settings (Analysis.ofSource other source file)).Addressed := by
  intro number line h
  obtain ⟨i, text, hi, ht, hc⟩ := line?_ofLines h
  obtain ⟨found, operation, hp, he, rfl⟩ := codeLine?_eq_some hc
  have unbroken : ∀ line ∈ (Analysis.ofSource other source file).lines, ∀ c ∈ line.toList,
      isLineBreak c = false := by
    intro line hl
    obtain ⟨kept, hk, rfl⟩ := List.mem_map.mp hl
    exact Repeat.unbroken_expand other source kept hk
  have hne : text ≠ "" := by
    rintro rfl
    contradiction
  have joined := getElem?_linesOf_joinLines unbroken ht hne
  have mem : found ∈ Source.parse (Repeat.expand other source).text := by
    refine List.mem_filterMap.mpr ⟨(text, number), ?_, hp⟩
    rw [hi, Nat.add_comm]
    exact List.mk_add_mem_zipIdx_iff_getElem?.mpr joined
  obtain ⟨address, ha⟩ := Layout.exists_address Firmware.address? mem he
  rw [Source.number_parseLine? hp] at ha
  rw [Std.ExtTreeMap.isSome_getElem?_eq_contains, Std.ExtTreeMap.contains_ofList]
  exact List.contains_iff_mem.mpr (List.mem_map_of_mem ha)

end Program

end Z80Workbench
