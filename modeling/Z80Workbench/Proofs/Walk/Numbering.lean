import Mathlib.Data.List.Nodup
import Z80Workbench.Proofs.Except
import Z80Workbench.Proofs.Walk.Addressed
import Z80Workbench.Proofs.Walk.Visits

/-!
# Z80Workbench.Proofs.Walk.Numbering

Numbers of lines.  The passes of an analysis split the text that the expanded lines were joined to,
a program reads the expanded lines one by one.  Both come to the same numbered lines, so that a
line which is executed is the line of one step, and has one address.
-/

namespace Z80Workbench

open Text

/-! ## lines of a text -/

namespace Source

variable {first : Nat} {texts : List String} {line : SourceLine}

/-- An empty text is no line. -/
@[simp] theorem parseLine?_empty (number : Nat) : parseLine? number "" = none := rfl

theorem parseLines_cons (first : Nat) (text : String) (rest : List String) :
    parseLines first (text :: rest) =
      (parseLine? first text).toList ++ parseLines (first + 1) rest := by
  cases h : parseLine? first text <;> simp [parseLines, h]

theorem mem_parseLines :
    line ∈ parseLines first texts ↔
      ∃ i text, texts[i]? = some text ∧ parseLine? (first + i) text = some line := by
  simp only [parseLines, List.mem_filterMap, Prod.exists]
  constructor
  · rintro ⟨text, number, hm, hp⟩
    obtain ⟨low, ht⟩ := List.mk_mem_zipIdx_iff_le_and_getElem?_sub.mp hm
    exact ⟨number - first, text, ht, by rw [Nat.add_sub_cancel' low, hp]⟩
  · rintro ⟨i, text, ht, hp⟩
    exact ⟨text, first + i, List.mk_add_mem_zipIdx_iff_getElem?.mpr ht, hp⟩

/-- Lines have the numbers of their places. -/
theorem bounds_of_mem_parseLines (h : line ∈ parseLines first texts) :
    first ≤ line.number ∧ line.number < first + texts.length := by
  obtain ⟨i, text, ht, hp⟩ := mem_parseLines.mp h
  have inside : i < texts.length := (List.getElem?_eq_some_iff.mp ht).1
  rw [number_parseLine? hp]
  omega

/-- Lines are numbered in their order, and no number is given twice. -/
theorem pairwise_parseLines (first : Nat) (texts : List String) :
    (parseLines first texts).Pairwise (·.number < ·.number) := by
  induction texts generalizing first with
  | nil => exact .nil
  | cons text rest ih =>
      rw [parseLines_cons, List.pairwise_append]
      refine ⟨?_, ih (first + 1), fun line hl other ho => ?_⟩
      · cases parseLine? first text <;> simp
      · have own := number_parseLine? (Option.mem_toList.mp hl)
        have later := (bounds_of_mem_parseLines ho).1
        omega

/-- Lines without line ends are read from the text that joins them as they are read one by one. -/
theorem parse_joinLines (h : ∀ text ∈ texts, ∀ c ∈ text.toList, isLineBreak c = false) :
    parse (joinLines texts) = parseLines 1 texts := by
  rw [parse, linesOf_joinLines h]
  split
  case isTrue last =>
      -- the empty line at the end, which is lost, would not have been read
      obtain ⟨front, rfl⟩ := List.getLast?_eq_some_iff.mp last
      simp [parseLines, List.zipIdx_append]
  case isFalse => rfl

end Source

/-! ## lines of an analysis -/

namespace Analysis

/-- The lines that the passes of the analysis work on. -/
def parsed (a : Analysis) : List SourceLine := Source.parse a.expansion.text

variable {settings other : Settings} {source file : String}

/-- No line of an analysis holds a line end. -/
theorem unbroken_lines (settings : Settings) (source file : String) :
    ∀ text ∈ (ofSource settings source file).lines, ∀ c ∈ text.toList, isLineBreak c = false := by
  intro text ht
  obtain ⟨kept, hk, rfl⟩ := List.mem_map.mp ht
  exact Repeat.unbroken_expand settings source kept hk

/-- The passes work on the lines that are read one by one. -/
theorem parsed_ofSource (settings : Settings) (source file : String) :
    (ofSource settings source file).parsed =
      Source.parseLines 1 (ofSource settings source file).lines :=
  Source.parse_joinLines (unbroken_lines settings source file)

/-- The layout places the lines in their order. -/
theorem map_line_placements (settings : Settings) (source file : String) :
    (ofSource settings source file).layout.placements.map (·.line) =
      (ofSource settings source file).parsed := by
  simp only [ofSource, Layout.placements_ofLines, Layout.Scan.map_line_placements, parsed]

end Analysis

/-! ## steps -/

namespace Step

variable {scope : Expr.Scope} {line : SourceLine}

/-- An executable line has a step, whatever its place among the steps is. -/
theorem exists_ofLine? (scope : Expr.Scope) (he : line.isExecutable = true) :
    ∃ i, line.instruction? = some i ∧ ∀ id, ∃ step, ofLine? scope line id = some step ∧
      step.line = line.number ∧ step.word = i.word ∧ step.cycles = i.cycles := by
  cases ho : line.operation with
  | none => simp [SourceLine.isExecutable, ho] at he
  | some operation =>
      refine ⟨_, by rw [SourceLine.instruction?, ho, Option.map_some], fun id => ?_⟩
      simp [ofLine?, he, SourceLine.instruction?, ho]

/-- Steps made in order of executable lines have the numbers of the lines. -/
theorem map_line_zipIdx {scope : Expr.Scope} {kept : List SourceLine}
    (executable : ∀ line ∈ kept, line.isExecutable = true) (id : Nat) :
    ((kept.zipIdx id).filterMap fun (line, id) => ofLine? scope line id).map (·.line) =
      kept.map (·.number) := by
  induction kept generalizing id with
  | nil => rfl
  | cons line rest ih =>
      obtain ⟨i, -, steps⟩ := exists_ofLine? scope (executable line List.mem_cons_self)
      obtain ⟨step, hs, number, -⟩ := steps id
      have rest := ih (fun other ho => executable other (List.mem_cons_of_mem line ho)) (id + 1)
      simp [hs, number, rest]

/-- The steps have the numbers of the executable lines. -/
theorem map_line_ofLines (scope : Expr.Scope) (lines : List SourceLine) :
    (ofLines scope lines).map (·.line) = (lines.filter (·.isExecutable)).map (·.number) :=
  map_line_zipIdx (fun _ hl => (List.mem_filter.mp hl).2) 1

/-- Every executable line has a step that shows its instruction. -/
theorem exists_mem_ofLines {lines : List SourceLine} (h : line ∈ lines)
    (he : line.isExecutable = true) :
    ∃ i, line.instruction? = some i ∧ ∃ step ∈ ofLines scope lines,
      step.line = line.number ∧ step.word = i.word ∧ step.cycles = i.cycles := by
  obtain ⟨i, hi, steps⟩ := exists_ofLine? scope he
  obtain ⟨place, hp⟩ := List.getElem?_of_mem (List.mem_filter.mpr ⟨h, he⟩)
  obtain ⟨step, hs, same⟩ := steps (1 + place)
  refine ⟨i, hi, step, List.mem_filterMap.mpr ⟨(line, 1 + place), ?_, hs⟩, same⟩
  exact List.mk_add_mem_zipIdx_iff_getElem?.mpr hp

end Step

/-! ## lines of a program -/

namespace Program

variable {settings : Settings} {texts : List String} {labels : Labels} {symbols : Symbols}
  {image : Memory} {addresses : List (Nat × Nat)}

/-- The line of a number is that of the text at its place. -/
theorem line?_ofLines_succ (i : Nat) :
    (ofLines settings texts labels symbols image addresses).line? (i + 1) =
      texts[i]?.bind (codeLine? (.ofList addresses) · (i + 1)) := by
  cases ht : texts[i]? <;> simp [line?, ofLines, ht, Nat.add_comm]

/-- The lines that can be executed are those which are read from the texts. -/
theorem line?_eq_some {number : Nat} {line : CodeLine} :
    (ofLines settings texts labels symbols image addresses).line? number = some line ↔
      ∃ found ∈ Source.parseLines 1 texts, found.number = number ∧ found.isExecutable = true ∧
        found.instruction? = some line.instruction ∧
        line.address = (Std.ExtTreeMap.ofList addresses compare)[number]? := by
  constructor
  · intro h
    obtain ⟨i, text, rfl, ht, hc⟩ := line?_ofLines h
    unfold codeLine? at hc
    split at hc
    case h_1 found hp =>
        split at hc
        case isTrue he =>
            obtain ⟨instruction, hi, rfl⟩ := Option.map_eq_some_iff.mp hc
            refine ⟨found, Source.mem_parseLines.mpr ⟨i, text, ht, ?_⟩,
              Source.number_parseLine? hp, he, hi, rfl⟩
            rw [Nat.add_comm, hp]
        case isFalse => cases hc
    case h_2 => cases hc
  · rintro ⟨found, hm, rfl, he, hi, ha⟩
    obtain ⟨i, text, ht, hp⟩ := Source.mem_parseLines.mp hm
    have place := Source.number_parseLine? hp
    rw [Nat.add_comm] at hp place
    rw [place] at ha ⊢
    simp [line?_ofLines_succ, ht, codeLine?, hp, he, hi, ← ha]

/-- The lines that can be executed are those executable lines that the passes work on. -/
theorem line?_ofAnalysis {other : Settings} {source file : String} {number : Nat}
    {line : CodeLine} :
    (ofAnalysis settings (Analysis.ofSource other source file)).line? number = some line ↔
      ∃ found ∈ (Analysis.ofSource other source file).parsed, found.number = number ∧
        found.isExecutable = true ∧ found.instruction? = some line.instruction ∧
        line.address = (Std.ExtTreeMap.ofList
          (Analysis.ofSource other source file).layout.addresses compare)[number]? := by
  rw [Analysis.parsed_ofSource]
  exact line?_eq_some

end Program

/-! ## addresses -/

/-- The address of a placed line is found under the number of the line. -/
theorem Layout.getElem?_addresses {layout : Layout} {p : Placement} {address : Nat}
    (numbered : layout.placements.Pairwise (·.line.number < ·.line.number))
    (h : p ∈ layout.placements) (ha : p.address = some address) :
    (Std.ExtTreeMap.ofList layout.addresses compare)[p.line.number]? = some address := by
  have distinct : layout.addresses.Pairwise fun a b => ¬compare a.1 b.1 = .eq := by
    refine numbered.filterMap _ fun p q less a hp b hq => ?_
    obtain ⟨_, _, rfl⟩ := Option.map_eq_some_iff.mp hp
    obtain ⟨_, _, rfl⟩ := Option.map_eq_some_iff.mp hq
    rw [Nat.compare_eq_eq]
    exact Nat.ne_of_lt less
  have listed : (p.line.number, address) ∈ layout.addresses :=
    List.mem_filterMap.mpr ⟨p, h, by rw [ha, Option.map_some]⟩
  exact Std.ExtTreeMap.getElem?_ofList_of_mem Std.ReflCmp.compare_self distinct listed

namespace Analysis

theorem pairwise_parsed (settings : Settings) (source file : String) :
    (ofSource settings source file).parsed.Pairwise (·.number < ·.number) := by
  rw [parsed_ofSource]
  exact Source.pairwise_parseLines 1 _

/-- No line is numbered beyond the expanded lines. -/
theorem bounds_of_mem_parsed {settings : Settings} {source file : String} {line : SourceLine}
    (h : line ∈ (ofSource settings source file).parsed) :
    1 ≤ line.number ∧ line.number ≤ (ofSource settings source file).lines.length := by
  rw [parsed_ofSource] at h
  have := Source.bounds_of_mem_parseLines h
  omega

theorem one_le_of_mem_placements {settings : Settings} {source file : String} {p : Placement}
    (h : p ∈ (ofSource settings source file).layout.placements) : 1 ≤ p.line.number := by
  have parsed : p.line ∈ (ofSource settings source file).parsed := by
    rw [← map_line_placements]
    exact List.mem_map_of_mem h
  exact (bounds_of_mem_parsed parsed).1

/-- The placements of an analysis are numbered in their order. -/
theorem pairwise_placements (settings : Settings) (source file : String) :
    (ofSource settings source file).layout.placements.Pairwise
      (·.line.number < ·.line.number) := by
  have numbered := pairwise_parsed settings source file
  rwa [← map_line_placements, List.pairwise_map] at numbered

/-- The steps are made from the lines that the other passes work on. -/
theorem steps_ofSource (settings : Settings) (source file : String) :
    (ofSource settings source file).steps =
      Step.ofLines ⟨(ofSource settings source file).layout.symbols, Firmware.address?⟩
        (ofSource settings source file).parsed := by
  simp only [ofSource, parsed]

/-- The steps of an analysis have the numbers of its executable lines. -/
theorem map_line_steps (settings : Settings) (source file : String) :
    (ofSource settings source file).steps.map (·.line) =
      ((ofSource settings source file).parsed.filter (·.isExecutable)).map (·.number) := by
  rw [steps_ofSource, Step.map_line_ofLines]

/-- No two steps of an analysis have the same line. -/
theorem nodup_steps (settings : Settings) (source file : String) :
    ((ofSource settings source file).steps.map (·.line)).Nodup := by
  rw [map_line_steps]
  have numbered := (pairwise_parsed settings source file).filter (·.isExecutable)
  exact (List.pairwise_map.mpr numbered).imp Nat.ne_of_lt

end Analysis

/-! ## one numbering -/

/-- The executable line of a program is the line of that number which the passes work on, and the
line of exactly one step, which shows its instruction; and it has an address in the layout. -/
structure Analysis.Shows (a : Analysis) (number : Nat) (line : CodeLine) : Prop where
  parsed : ∃ found ∈ a.parsed, found.number = number ∧ found.instruction? = some line.instruction
  once : (a.steps.map (·.line)).count number = 1
  step : ∃ step ∈ a.steps, step.line = number ∧ step.word = line.instruction.word ∧
    step.cycles = line.instruction.cycles
  address : ∃ address, (number, address) ∈ a.layout.addresses ∧ line.address = some address

namespace Program

variable {settings other : Settings} {source file : String}

/-- A line that can be executed is placed, and has the address of its placement. -/
theorem exists_placement {number : Nat} {line : CodeLine}
    (h : (ofAnalysis settings (Analysis.ofSource other source file)).line? number = some line) :
    ∃ p ∈ (Analysis.ofSource other source file).layout.placements, p.line.number = number ∧
      p.line.isExecutable = true ∧ p.line.instruction? = some line.instruction ∧
      p.address.isSome ∧ line.address = p.address := by
  obtain ⟨found, hm, rfl, he, hi, ha⟩ := line?_ofAnalysis.mp h
  rw [← Analysis.map_line_placements] at hm
  obtain ⟨p, hp, rfl⟩ := List.mem_map.mp hm
  have plain : p.line.operation ≠ some (.directive .equ) := by
    intro hq
    simp [SourceLine.isExecutable, hq, Operation.isExecutable] at he
  have placed := Layout.isSome_address hp plain
  obtain ⟨address, hs⟩ := Option.isSome_iff_exists.mp placed
  refine ⟨p, hp, rfl, he, hi, placed, ?_⟩
  rw [ha, hs, Layout.getElem?_addresses (Analysis.pairwise_placements other source file) hp hs]

theorem shows_of_line? {number : Nat} {line : CodeLine}
    (h : (ofAnalysis settings (Analysis.ofSource other source file)).line? number = some line) :
    (Analysis.ofSource other source file).Shows number line := by
  obtain ⟨p, hp, rfl, he, hi, placed, same⟩ := exists_placement h
  obtain ⟨address, ha⟩ := Option.isSome_iff_exists.mp placed
  have hm : p.line ∈ (Analysis.ofSource other source file).parsed := by
    rw [← Analysis.map_line_placements]
    exact List.mem_map_of_mem hp
  obtain ⟨i, hi', step, hs, number, word, cycles⟩ :=
    @Step.exists_mem_ofLines ⟨_, Firmware.address?⟩ _ _ hm he
  rw [← Analysis.steps_ofSource] at hs
  obtain rfl : i = line.instruction := Option.some.inj (hi'.symm.trans hi)
  exact ⟨⟨p.line, hm, rfl, hi⟩, List.count_eq_one_of_mem (Analysis.nodup_steps other source file)
      (List.mem_map.mpr ⟨step, hs, number⟩),
    ⟨step, hs, number, word, cycles⟩, address,
    List.mem_filterMap.mpr ⟨p, hp, by rw [ha, Option.map_some]⟩, same.trans ha⟩

/-- **One numbering.**  The layout, the steps and a program of an analysis number its lines alike.
The passes work on lines whose numbers increase and stay within the expanded lines, and the line of
a number is what the program reads at that place, or there is none in either.  Every line at which a
walk may arrive, and every line that a run has visited, is the line of exactly one step and has an
address. -/
theorem numbered_alike (settings other : Settings) (source file : String) :
    let a := Analysis.ofSource other source file
    let p := ofAnalysis settings a
    (a.layout.placements.map (·.line) = a.parsed ∧
      a.steps.map (·.line) = (a.parsed.filter (·.isExecutable)).map (·.number)) ∧
    (a.parsed.Pairwise (·.number < ·.number) ∧
      ∀ line ∈ a.parsed, 1 ≤ line.number ∧ line.number ≤ a.lines.length) ∧
    (∀ (i : Nat) (text : String), a.lines[i]? = some text → ∀ line,
      Source.parseLine? (i + 1) text = some line ↔ line ∈ a.parsed ∧ line.number = i + 1) ∧
    (∀ start number line, p.executable? start = some (number, line) → a.Shows number line) ∧
    (∀ start m limit control o, p.runSubroutine start m limit control = .ok o →
      ∃ visits depth,
        p.Ends .routine { line := (p.startLine? start).getD 0, machine := m } visits o depth ∧
        ∀ visit ∈ visits, a.Shows visit.number visit.line) ∧
    ∀ branch label m limit cancelled o, p.runLoop branch label m limit cancelled = .ok o →
      ∃ visits depth,
        p.Ends (.loop branch ((p.labelLine? label).getD 0))
          { line := (p.labelLine? label).getD 0, machine := m } visits o depth ∧
        ∀ visit ∈ visits, a.Shows visit.number visit.line := by
  intro a p
  refine ⟨⟨?placed, ?steps⟩, ⟨?order, ?bounds⟩, ?read, ?arrived, ?routine, ?loop⟩
  case placed => exact Analysis.map_line_placements other source file
  case steps => exact Analysis.map_line_steps other source file
  case order => exact Analysis.pairwise_parsed other source file
  case bounds => exact fun line hm => Analysis.bounds_of_mem_parsed hm
  case read =>
      intro i text ht line
      rw [Analysis.parsed_ofSource, Source.mem_parseLines]
      constructor
      · intro hp
        exact ⟨⟨i, text, ht, by rw [Nat.add_comm, hp]⟩, Source.number_parseLine? hp⟩
      · rintro ⟨⟨k, found, hk, hp⟩, number⟩
        have same : k = i := by
          have := Source.number_parseLine? hp
          omega
        obtain rfl : found = text := Option.some.inj (hk.symm.trans (same ▸ ht))
        rw [← Nat.add_comm 1 i, ← same]
        exact hp
  case arrived =>
      intro start number line h
      exact shows_of_line? (line?_of_executable h)
  case routine =>
      intro start m limit control o h
      obtain ⟨visits, depth, ends⟩ := ends_of_runSubroutine h
      exact ⟨visits, depth, ends, fun visit hv => shows_of_line? (ends.line? visit hv)⟩
  case loop =>
      intro branch label m limit cancelled o h
      obtain ⟨visits, depth, ends⟩ := ends_of_runLoop h
      exact ⟨visits, depth, ends, fun visit hv => shows_of_line? (ends.line? visit hv)⟩

/-- A repeated line is executed under two numbers, and both are those of steps. -/
theorem numbered_alike_repeated :
    let a := Analysis.ofSource {} "MAIN: REPEAT 2\n  INC A\n  ENDR\n  RET" ""
    let p := ofAnalysis {} a
    (∀ line, Source.parseLine? 3 "  INC A" = some line ↔ line ∈ a.parsed ∧ line.number = 3) ∧
    ∃ o visits depth, p.runSubroutine (.line 1) (Machine.initial {}) none {} = .ok o ∧
      p.Ends .routine { line := 1, machine := Machine.initial {} } visits o depth ∧
      ∀ visit ∈ visits, a.Shows visit.number visit.line := by
  intro a p
  obtain ⟨-, -, read, -, routine, -⟩ :=
    numbered_alike {} {} "MAIN: REPEAT 2\n  INC A\n  ENDR\n  RET" ""
  have first : p.startLine? (.line 1) = some 1 := by decide +kernel
  obtain ⟨o, h⟩ := exists_of_toBool (x := p.runSubroutine (.line 1) (Machine.initial {})
    none {}) (by decide +kernel)
  obtain ⟨visits, depth, ends, shown⟩ := routine _ _ _ _ o h
  rw [first] at ends
  have second : a.lines[2]? = some "  INC A" := by decide +kernel
  exact ⟨read 2 "  INC A" second, o, visits, depth, h, ends, shown⟩

end Program

end Z80Workbench
