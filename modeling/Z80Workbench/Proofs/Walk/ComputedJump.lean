import Z80Workbench.Proofs.Assembly.Contiguous
import Z80Workbench.Proofs.Assembly.Declarations
import Z80Workbench.Proofs.Walk.Numbering
import Z80Workbench.Proofs.Walk.Targets

/-!
# Z80Workbench.Proofs.Walk.ComputedJump

Jumps through a register.  A walk that meets a label goes on at the line of the label, one that
meets an address looks for a line there.  In a source that is assembled into one block both come to
the same instruction, or to the end: the lines between a label and the line that an address leads to
reserve nothing, so that no instruction is among them.
-/

namespace Z80Workbench

open Text

/-- The address in the register that an operand points through. -/
def Mode.pointed? (m : Machine) : Mode → Option Nat
  | indirect .hl => some m.registers.hl
  | indexed x _ => some (m.registers.index x)
  | _ => none

namespace Program

variable {p : Program}

/-! ## the next line -/

/-- A line without an instruction is passed over. -/
theorem executableFrom?_succ {index : Nat} (h : p.line? (index + 1) = none) :
    p.executableFrom? index = p.executableFrom? (index + 1) := by
  rw [executableFrom?]
  by_cases inside : index < p.code.size
  · have empty : p.code[index] = none := by simpa [line?, inside] using h
    rw [dif_pos inside, empty]
  · rw [dif_neg inside, executableFrom?, dif_neg (by omega)]

/-- If no instruction stands between two lines, the same one is the next from both. -/
theorem executable?_eq_of_le {first last : Nat} (positive : 1 ≤ first) (h : first ≤ last)
    (none : ∀ number line, p.line? number = some line → first ≤ number → last ≤ number) :
    p.executable? first = p.executable? last := by
  induction last, h using Nat.le_induction with
  | base => rfl
  | succ last low ih =>
      have empty : p.line? last = Option.none := by
        cases hl : p.line? last with
        | none => rfl
        | some line =>
            have := none last line hl low
            omega
      rw [ih fun number line hl hn => Nat.le_of_succ_le (none number line hl hn)]
      obtain ⟨index, rfl⟩ : ∃ index, last = index + 1 := ⟨last - 1, by omega⟩
      simpa [executable?] using executableFrom?_succ empty

/-- An address leads to an executable line with that address, if there is one, or else to the line
of the first label that has it as value. -/
theorem lineAt?_cases (p : Program) (address : Nat) :
    (∃ number line found, p.lineAt? address = some number ∧ p.line? number = some line ∧
      line.address = some found ∧ found % 65536 = address) ∨
    p.lineAt? address = p.symbols.entries.findSome? fun (name, value) =>
      if value = address then p.labels.get? name else none := by
  unfold lineAt?
  split
  case h_1 index hi =>
      obtain ⟨inside, hit, -⟩ := Array.findIdx?_eq_some_iff_getElem.mp hi
      cases hl : p.code[index] with
      | none => simp [hl] at hit
      | some line =>
          obtain ⟨found, hf, same⟩ : ∃ found, line.address = some found ∧
              found % 65536 = address := by
            cases ha : line.address <;> simp_all
          exact .inl ⟨index + 1, line, found, rfl, by simp [line?, inside, hl], hf, same⟩
  case h_2 => exact .inr rfl

/-! ## labels and addresses -/

section

variable {settings other : Settings} {source file : String}
  (hp : p = ofAnalysis settings (Analysis.ofSource other source file))
include hp

variable (block : (Analysis.ofSource other source file).layout.IsBlock)
include block

/-- From two lines with the same number of bytes before them, the next instruction is the same. -/
theorem executable?_eq_of_reserved {first last : Nat} (positive : 1 ≤ first) (positive' : 1 ≤ last)
    (same : (Analysis.ofSource other source file).layout.reserved first =
      (Analysis.ofSource other source file).layout.reserved last) :
    p.executable? first = p.executable? last := by
  subst hp
  have between {low high : Nat} (same : (Analysis.ofSource other source file).layout.reserved low =
      (Analysis.ofSource other source file).layout.reserved high) (number : Nat) (line : CodeLine)
      (hl : (ofAnalysis settings (Analysis.ofSource other source file)).line? number = some line)
      (hn : low ≤ number) : high ≤ number := by
    obtain ⟨q, hq, rfl, executable, -⟩ := exists_placement hl
    exact block.le_of_executable rfl hq executable same hn
  obtain up | down := Nat.le_total first last
  · exact executable?_eq_of_le positive up (between same)
  · exact (executable?_eq_of_le positive' down (between same.symm)).symm

/-- A label is declared on a line of the block, which has its value as address. -/
theorem exists_labelled {name : String} {target : Nat} (label : p.labels.get? name = some target) :
    ∃ q ∈ (Analysis.ofSource other source file).layout.body, q.isEqu = false ∧
      q.line.number = target ∧ 1 ≤ target ∧ ∃ address : Nat, q.address = some address ∧
        p.symbols.get? name = some (address : Int) := by
  rw [labels_ofAnalysis hp] at label
  obtain ⟨q, hq, plain, rfl, hn, address, ha, hv⟩ := Layout.exists_declaration block.once
    (Analysis.pairwise_parsed other source file) label
  have placed : q ∈ (Analysis.ofSource other source file).layout.placements := hq
  have occupied : q.occupies = true := by
    simp [Placement.occupies, plain, List.ne_nil_of_mem hn]
  exact ⟨q, Layout.mem_body placed occupied, plain, rfl, Analysis.one_le_of_mem_placements placed,
    address, ha, hp ▸ hv⟩

/-- In one block, the address of a label leads to the same instruction as the label, or both lead to
the end, unless the label stands behind a block that fills the address space. -/
theorem lineAt?_of_label {name : String} {target address : Nat}
    (label : p.labels.get? name = some target)
    (value : p.symbols.get? name = some (address : Int))
    (room : (Analysis.ofSource other source file).layout.reserved target < 65536) :
    ∃ found, p.lineAt? address = some found ∧ p.executable? found = p.executable? target := by
  have numbered := Analysis.pairwise_placements other source file
  obtain ⟨q, hq, plain, rfl, positive, given, ha, hv⟩ := exists_labelled hp block label
  obtain rfl : given = address := Int.ofNat.inj (Option.some.inj (hv.symm.trans value))
  -- any other line of the block at this address is followed by the same instruction
  have alike (r : Placement) (hr : r ∈ (Analysis.ofSource other source file).layout.body)
      (plain' : r.isEqu = false) (positive' : 1 ≤ r.line.number)
      (room' : (Analysis.ofSource other source file).layout.reserved r.line.number < 65536)
      (same : r.address = some given) :
      p.executable? r.line.number = p.executable? q.line.number :=
    executable?_eq_of_reserved hp block positive' positive
      (block.reserved_eq_of_address rfl numbered hr hq plain' plain room' room (same.trans ha.symm))
  obtain ⟨number, line, found, hl, there, hf, same⟩ | scan := lineAt?_cases p given
  · rw [hp] at there
    obtain ⟨e, he, rfl, executable, -, -, address⟩ := exists_placement there
    have inside := block.mem_of_executable rfl he executable
    have plain' := Placement.isEqu_of_executable executable
    have room' := block.reserved_lt rfl numbered he executable
    obtain ⟨start, -, lies⟩ := block.exists_start rfl numbered
    have lies := lies e inside plain'
    rw [← address, hf, Option.some.injEq] at lies
    have exact : e.address = some given := by
      rw [← address, hf, ← same, lies, Nat.mod_mod]
    exact ⟨e.line.number, hl,
      alike e inside plain' (Analysis.one_le_of_mem_placements he) room' exact⟩
  · cases hs : p.lineAt? given with
    | none =>
        rw [hs, eq_comm, List.findSome?_eq_none_iff] at scan
        have := scan _ (Table.mem_of_get? hv)
        simp [label] at this
    | some first =>
        rw [hs, labels_ofAnalysis hp] at scan
        rw [labels_ofAnalysis hp] at label
        subst hp
        obtain ⟨low, second, bound, known⟩ := Layout.le_of_first block.once
          (Analysis.pairwise_parsed other source file) scan.symm hv label
        have first : (ofAnalysis settings (Analysis.ofSource other source file)).labels.get?
            second = some first := by
          rw [labels_ofAnalysis rfl]
          exact known
        obtain ⟨r, hr, plain', rfl, positive', given', ha', hv'⟩ :=
          exists_labelled rfl block first
        obtain rfl : given' = given := Int.ofNat.inj (Option.some.inj (hv'.symm.trans bound))
        have room' := Nat.lt_of_le_of_lt (Placement.sizeBefore_mono low) room
        exact ⟨r.line.number, rfl, alike r hr plain' positive' room' ha'⟩

end

/-! ## one jump -/

variable {number : Nat} {line : CodeLine} {m n : Machine}

/-- A jump to a place with a line goes on at that line, whether or not jumps into the firmware
return. -/
theorem step_of_jump (number : Nat) (transfer : line.transfer? = some .jump)
    (taken : m.flags.allow line.instruction.condition = true) {target : Nat}
    (leads : (p.destination m (targetMode? line)).line = some target) :
    ∃ there, ∀ tailCalls returns,
      p.step tailCalls number line m returns = .ok (.goto there returns target) := by
  refine ⟨(m.arriveAt line.address).jump p.env (targetMode? line), fun tailCalls returns => ?_⟩
  have jumped := executeLine_jump (p := p) transfer taken
  have step : p.step tailCalls number line m returns =
      p.stepJump tailCalls number line m returns := by
    unfold CodeLine.transfer? at transfer
    split at transfer
    case h_6 operation | h_7 operation => rw [Program.step, operation]
    all_goals cases transfer
  rw [step, stepJump, if_pos taken, jumped]
  simp only [bind, Except.bind, pure, Except.pure, leads]

/-- A line of the program is the first one from itself on, and a run can start there. -/
theorem executable?_of_line? (h : p.line? number = some line) :
    p.executable? number = some (number, line) ∧ p.startLine? (.line number) = some number := by
  cases number with
  | zero => simp [line?] at h
  | succ index =>
      have listed : p.code[index]? = some (some line) := by
        simpa [line?, Option.join_eq_some_iff] using h
      obtain ⟨inside, hc⟩ := Array.getElem?_eq_some_iff.mp listed
      have within : index + 1 ≤ p.size := inside
      rw [executable?, if_neg index.succ_ne_zero, Nat.add_sub_cancel, executableFrom?,
        dif_pos inside, hc]
      simp [startLine?, within]

/-- A run of one line that goes to another tells the next instruction from there on. -/
theorem runSubroutine_one (hl : p.line? number = some line) {target : Nat}
    (goes : p.step true number line m [] = .ok (.goto n [] target)) :
    p.runSubroutine (.line number) m (some 1) {} = .ok
      { machine := n
        status := if (p.executable? target).isSome then .stepLimit else .endOfSource
        steps := 1
        lastLine := some number
        nextLine := (p.executable? target).map (·.1) } := by
  obtain ⟨first, start⟩ := executable?_of_line? hl
  rw [runSubroutine, start]
  simp only [Option.getD_some, walk, first, goes, Move.goto, Walker.moved]
  cases p.executable? target with
  | none => simp [Walker.ended]
  | some next => simp [Walker.ended]

/-- The destination of an operand that points through a register is where its address leads. -/
theorem destination_of_pointed {mode : Mode} {address : Nat} (h : mode.pointed? m = some address) :
    p.destination m (some mode) = p.atAddress address := by
  cases mode with
  | indexed x offset => cases h; rfl
  | indirect pointer =>
      cases pointer with
      | hl => cases h; rfl
      | bc | de | sp | c => cases h
  | reg8 | reg16 | immediate | absolute => cases h

/-- **Computed jumps.**  In a source that is assembled into one block, a jump to a label and a jump
through a register that holds the value of the label go on at lines with the same next instruction,
so that a walk from either of them executes the same line next or runs off the end of the source.
The label must not stand behind a block that fills the whole address space, where its value is the
address of the start. -/
theorem computedJump_agrees {settings other : Settings} {source file : String}
    (hp : p = ofAnalysis settings (Analysis.ofSource other source file))
    (block : (Analysis.ofSource other source file).layout.IsBlock)
    {i j : Nat} {direct computed : CodeLine} {m m' : Machine}
    (hi : p.line? i = some direct) (hj : p.line? j = some computed)
    (jumps : direct.transfer? = some .jump) (jumps' : computed.transfer? = some .jump)
    (taken : m.flags.allow direct.instruction.condition = true)
    (taken' : m'.flags.allow computed.instruction.condition = true)
    {operand : Operand} (named : direct.instruction.target? = some operand)
    (identifier : Source.isIdentifier operand.text.toList)
    (h8 : Reg8.ofName? (upperString operand.text) = none)
    (h16 : Pair.ofName? (upperString operand.text) = none)
    {target address : Nat} (label : p.labelLine? operand.text = some target)
    (value : p.symbols.get? (upperString operand.text) = some (address : Int))
    (room : (Analysis.ofSource other source file).layout.reserved target < 65536)
    (pointed : (targetMode? computed).bind (·.pointed? m') = some address) :
    (∃ found n n', p.executable? found = p.executable? target ∧
      ∀ tailCalls returns, p.step tailCalls i direct m returns = .ok (.goto n returns target) ∧
        p.step tailCalls j computed m' returns = .ok (.goto n' returns found)) ∧
    ∃ o o', p.runSubroutine (.line i) m (some 1) {} = .ok o ∧
      p.runSubroutine (.line j) m' (some 1) {} = .ok o' ∧ o.steps = 1 ∧ o'.steps = 1 ∧
      o.status = o'.status ∧ o.nextLine = o'.nextLine ∧
      (o.status = .stepLimit ∧ o.nextLine.isSome ∨
        o.status = .endOfSource ∧ o.nextLine = none) := by
  obtain ⟨text, rfl⟩ : ∃ text, operand = Operand.parse text := by
    rw [hp] at hi
    exact exists_of_target hi named
  have name : upperString (trimString (Operand.parse text).text) =
      upperString (Operand.parse text).text := by
    simp [Operand.parse, trimString, trim_trim]
  rw [labelLine?, name] at label
  have leads : (p.destination m (targetMode? direct)).line = some target := by
    have mode : Operand.modeOf (trim text) = .immediate (Expr.read (trim text)) :=
      Operand.modeOf_identifier (by simpa [Operand.parse] using identifier)
        (by simpa [Operand.parse, upperString] using h8)
        (by simpa [Operand.parse, upperString] using h16)
    rw [targetMode?, named, Option.map_some, Operand.parse, mode]
    show (p.atExpression (Operand.parse text).text).line = some target
    rw [atExpression, name, label]
  obtain ⟨found, there, same⟩ := lineAt?_of_label hp block label value room
  have leads' : (p.destination m' (targetMode? computed)).line = some found := by
    obtain ⟨mode, hm, held⟩ := Option.bind_eq_some_iff.mp pointed
    rw [hm, destination_of_pointed held]
    exact there
  obtain ⟨n, goes⟩ := step_of_jump i jumps taken leads
  obtain ⟨n', goes'⟩ := step_of_jump j jumps' taken' leads'
  refine ⟨⟨found, n, n', same, fun tailCalls returns => ⟨goes _ _, goes' _ _⟩⟩, _, _,
    runSubroutine_one hi (goes true []), runSubroutine_one hj (goes' true []), rfl, rfl, ?_⟩
  rw [same]
  cases p.executable? target <;> simp

/-- Two jumps to a table, from which both go on behind it. -/
def tableSource : String :=
  "      ORG $4000\nMAIN: JP TABLE\n      JP (HL)\nTABLE: DB 1\n      RET"

/-- The jump to the label of the table. -/
def tableJump : CodeLine := ⟨Instruction.parse "JP" "TABLE", some 0x4000⟩

/-- The jump through a register. -/
def pointerJump : CodeLine := ⟨Instruction.parse "JP" "(HL)", some 0x4003⟩

theorem computedJump_agrees_table :
    ∃ o o', (ofAnalysis {} (Analysis.ofSource {} tableSource "")).runSubroutine (.line 2)
        (Machine.initial {}) (some 1) {} = .ok o ∧
      (ofAnalysis {} (Analysis.ofSource {} tableSource "")).runSubroutine (.line 3)
        ((Machine.initial {}).setHl 0x4004) (some 1) {} = .ok o' ∧
      o.steps = 1 ∧ o'.steps = 1 ∧ o.status = o'.status ∧ o.nextLine = o'.nextLine ∧
      (o.status = .stepLimit ∧ o.nextLine.isSome ∨
        o.status = .endOfSource ∧ o.nextLine = none) := by
  have facts : (Analysis.ofSource {} tableSource "").layout.IsBlock ∧
      (ofAnalysis {} (Analysis.ofSource {} tableSource "")).line? 2 = some tableJump ∧
      (ofAnalysis {} (Analysis.ofSource {} tableSource "")).line? 3 = some pointerJump ∧
      (ofAnalysis {} (Analysis.ofSource {} tableSource "")).labelLine? "TABLE" = some 4 ∧
      (ofAnalysis {} (Analysis.ofSource {} tableSource "")).symbols.get? "TABLE" =
        some ((0x4004 : Nat) : Int) ∧
      (Analysis.ofSource {} tableSource "").layout.reserved 4 < 65536 := by decide +kernel
  obtain ⟨block, direct, computed, label, value, room⟩ := facts
  have named : tableJump.instruction.target? = some (Operand.parse "TABLE".toList) := by
    decide +kernel
  have text : (Operand.parse "TABLE".toList).text = "TABLE" := by decide +kernel
  have name : upperString "TABLE" = "TABLE" := by decide +kernel
  exact (computedJump_agrees rfl block direct computed rfl rfl rfl rfl named (by decide +kernel)
    (by decide +kernel) (by decide +kernel) (text ▸ label) (by rwa [text, name]) room rfl).2

/-- A block that fills the address space, with a label behind its last byte. -/
def fullSource : String := "MAIN: JP BEHIND\n      JP (HL)\n      DS 65532\nBEHIND:"

/-- Behind a block that fills the address space, a label has the address of the start: the jump to
the label runs off the end, and the jump through a register that holds its value starts again. -/
theorem computedJump_wraps :
    (Analysis.ofSource {} fullSource "").layout.IsBlock ∧
    Source.isIdentifier "BEHIND".toList ∧ Reg8.ofName? "BEHIND" = none ∧
    Pair.ofName? "BEHIND" = none ∧
    (ofAnalysis {} (Analysis.ofSource {} fullSource "")).labelLine? "BEHIND" = some 4 ∧
    (ofAnalysis {} (Analysis.ofSource {} fullSource "")).symbols.get? "BEHIND" =
      some ((Machine.initial {}).registers.hl : Int) ∧
    (ofAnalysis {} (Analysis.ofSource {} fullSource "")).line? 1 =
      some ⟨Instruction.parse "JP" "BEHIND", some 0⟩ ∧
    (ofAnalysis {} (Analysis.ofSource {} fullSource "")).line? 2 =
      some ⟨Instruction.parse "JP" "(HL)", some 3⟩ ∧
    (((ofAnalysis {} (Analysis.ofSource {} fullSource "")).runSubroutine (.line 1)
      (Machine.initial {}) (some 1) {}).map fun o => (o.status, o.nextLine)).toOption =
        some (.endOfSource, none) ∧
    (((ofAnalysis {} (Analysis.ofSource {} fullSource "")).runSubroutine (.line 2)
      (Machine.initial {}) (some 1) {}).map fun o => (o.status, o.nextLine)).toOption =
        some (.stepLimit, some 1) := by
  decide +kernel

end Program

end Z80Workbench
