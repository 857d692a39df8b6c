import Z80Workbench.Proofs.Assembly.Declarations
import Z80Workbench.Proofs.Expr.LetterCase
import Z80Workbench.Proofs.Machine.WellFormed
import Z80Workbench.Proofs.Walk.Addressed
import Z80Workbench.Proofs.Walk.Moves

/-!
# Z80Workbench.Proofs.Walk.Targets

Where a control transfer leads, for the walk and for the machine.  The walk asks the labels before
it reads an expression, and reads it in capital letters; the machine reads what is written, and
asks the symbols last.  Both find the same address, except where a label is spelled as a number,
where upper case changes a character literal, and where a call goes through a register, which the
machine follows for jumps only.
-/

namespace Z80Workbench

open Text

/-! ## operands -/

/-- The expression that an operand gives as an address to go to. -/
def Mode.address? : Mode → Option Expr
  | immediate e => some e
  | absolute e => some e
  | _ => none

/-- The operand names a register that holds the address to go to. -/
def Mode.isRegister : Mode → Bool
  | indirect .hl => true
  | indexed _ _ => true
  | _ => false

/-- The expression of an operand is read from a text without blanks around it. -/
theorem Operand.exists_of_address {text : List Char} (trimmed : trim text = text) {e : Expr}
    (h : (modeOf text).address? = some e) : ∃ x, trim x = x ∧ e = Expr.read x := by
  have inside (inner : List Char) (ht : trim inner = inner) (h : (modeInside inner).address? =
      some e) : ∃ x, trim x = x ∧ e = Expr.read x := by
    unfold modeInside at h
    split at h
    · cases h
    · cases hi : indexed? inner with
      | none =>
          rw [hi] at h
          cases h
          exact ⟨inner, ht, rfl⟩
      | some mode =>
          rw [hi] at h
          unfold indexed? at hi
          split at hi
          · dsimp only at hi
            split at hi
            · cases hi
              cases h
            · split at hi
              · cases hi
                cases h
              · cases hi
            · cases hi
          · cases hi
  unfold modeOf at h
  dsimp only at h
  split at h
  · cases h
  split at h
  · cases h
  split at h
  case h_1 inner found =>
      refine inside inner ?_ h
      unfold enclosed? at found
      split at found
      · cases found
        exact trim_trim _
      · cases found
  case h_2 =>
      cases h
      exact ⟨text, trimmed, rfl⟩

namespace Program

variable {p : Program} {number : Nat} {line : CodeLine} {m : Machine}

/-- An operand that holds an address leads where its expression does. -/
theorem destination_of_address {mode : Mode} {e : Expr} (h : mode.address? = some e) :
    p.destination m (some mode) = p.atExpression e.text := by
  cases mode with
  | immediate | absolute =>
      cases h
      rfl
  | reg8 | reg16 | indirect | indexed => cases h

/-- The value of such an operand is what the machine goes to. -/
theorem calledAddress?_of_address {mode : Mode} {e : Expr} (h : mode.address? = some e)
    (env : Machine.Env) : Machine.calledAddress? env (some mode) = env.value? e := by
  cases mode with
  | immediate | absolute =>
      cases h
      rfl
  | reg8 | reg16 | indirect | indexed => cases h

theorem jump_of_address {mode : Mode} {e : Expr} (h : mode.address? = some e)
    (env : Machine.Env) : m.jump env (some mode) = ((env.value? e).map m.setPc).getD m := by
  cases mode with
  | immediate | absolute =>
      cases h
      unfold Machine.jump
      dsimp only [Mode.expr?, Option.bind_some]
      split <;> simp_all
  | reg8 | reg16 | indirect | indexed => cases h

/-! ## plain targets -/

/-- The target of a transfer is spelled so that walk and machine cannot differ: a call does not go
through a register; what looks like a number is no label; and a character literal that is no label
is a capital letter, or any other character that upper case leaves as it is. -/
structure PlainTarget (p : Program) (line : CodeLine) : Prop where
  register : line.transfer? = some .call → ((targetMode? line).any Mode.isRegister) = false
  number : ∀ e, (targetMode? line).bind Mode.address? = some e →
    (Expr.literal? e.text.toList).isSome → p.labelLine? e.text = none
  letters : ∀ e, (targetMode? line).bind Mode.address? = some e →
    p.labelLine? e.text = none → ¬ Expr.HoldsLower e.text.toList

/-! ## expressions without a label -/

/-- The name that a walk looks up for an expression among the labels. -/
theorem upperString_text {x : List Char} (trimmed : trim x = x) :
    upperString (trimString (Expr.read x).text) = String.ofList (upper x) := by
  rw [Expr.read, trimString, String.toList_ofList, trimmed, upperString, String.toList_ofList]

/-- Where no label is found and upper case changes no character literal, the walk goes by the value
that the machine finds. -/
theorem atExpression_of_unlabelled {x : List Char} (trimmed : trim x = x)
    (unlabelled : p.labels.get? (String.ofList (upper x)) = none) (letters : ¬ Expr.HoldsLower x) :
    p.atExpression (Expr.read x).text =
      match p.env.value? (Expr.read x) with
      | none => ⟨none, none⟩
      | some address =>
        if address < p.settings.firmwareLimit then ⟨none, some address⟩
        else p.atAddress address := by
  have same : (Expr.ofString (String.ofList (upper x))).value? p.env.scope =
      p.env.value? (Expr.read x) := by
    rw [Expr.ofString, String.toList_ofList, Expr.value?_read_upper letters]
    rfl
  rw [atExpression, upperString_text trimmed, unlabelled]
  exact same ▸ rfl

section

variable {settings other : Settings} {source file : String}

/-- The labels of an analysis are in upper case. -/
theorem map_upper_labels : (Analysis.ofSource other source file).labels.entries.map
    (fun (name, line) => (upperString name, line)) =
      (Analysis.ofSource other source file).labels.entries := by
  refine (List.map_congr_left ?_).trans (List.map_id _)
  rintro ⟨name, number⟩ hm
  obtain ⟨listed, hl⟩ := Option.isSome_iff_exists.mp (Table.isSome_of_mem hm)
  obtain ⟨value, hv⟩ : ∃ value, (Analysis.ofSource other source file).symbols.get? name =
      some value := Layout.exists_symbol_of_label hl
  show (upperString name, number) = (name, number)
  rw [Analysis.upperString_of_symbol hv]

variable (hp : p = ofAnalysis settings (Analysis.ofSource other source file))
include hp

/-- The labels of the program are those of the layout. -/
theorem labels_ofAnalysis : p.labels = (Analysis.ofSource other source file).layout.labels := by
  rw [hp, ofAnalysis, ofLines]
  dsimp only
  rw [map_upper_labels]
  exact Table.ofList_entries Layout.tidy_ofLines.labels

/-- A label of the program of an analysed source is a symbol, whose value is an address. -/
theorem exists_symbol_of_label {name : String} {target : Nat}
    (h : p.labels.get? name = some target) :
    name ≠ "" ∧ ∃ value, p.symbols.get? name = some value ∧ IsAddress value := by
  rw [labels_ofAnalysis hp] at h
  subst hp
  obtain ⟨value, hv⟩ : ∃ value, (Analysis.ofSource other source file).symbols.get? name =
      some value := Layout.exists_symbol_of_label h
  refine ⟨?_, value, hv, Layout.isAddress_of_symbol hv⟩
  obtain ⟨raw, hr, rfl⟩ := Analysis.exists_raw_of_symbol hv
  intro empty
  rw [String.ofList_eq_empty_iff] at empty
  exact hr (Expr.upper_eq_nil_iff.mp empty)

/-- Nothing leads on from an operand that is neither a register with an address nor an
expression. -/
theorem line_atExpression_empty : (p.atExpression "").line = none := by
  have name : upperString (trimString "") = "" := by decide +kernel
  have empty : Expr.ofString "" = ⟨"", .blank, none⟩ := by decide +kernel
  rw [atExpression, name]
  cases h : p.labels.get? "" with
  | none =>
      dsimp only
      rw [empty]
      rfl
  | some target => exact absurd rfl (exists_symbol_of_label hp h).1

/-- Where the walk finds a line through an expression, the machine finds its address. -/
theorem value_of_atExpression {x : List Char} (trimmed : trim x = x)
    (number : (Expr.literal? x).isSome → p.labelLine? (Expr.read x).text = none)
    (letters : p.labelLine? (Expr.read x).text = none → ¬ Expr.HoldsLower x) {target : Nat}
    (h : (p.atExpression (Expr.read x).text).line = some target) :
    ∃ address : Nat, (p.atExpression (Expr.read x).text).address = some (address : Int) ∧
      p.env.value? (Expr.read x) = some address := by
  have name := upperString_text trimmed
  have labelled : p.labelLine? (Expr.read x).text = p.labels.get? (String.ofList (upper x)) := by
    rw [labelLine?, name]
  rw [labelled] at number letters
  cases hl : p.labels.get? (String.ofList (upper x)) with
  | some found =>
      rw [atExpression, name, hl] at h ⊢
      obtain ⟨full, value, hv, low, high⟩ := exists_symbol_of_label hp hl
      obtain ⟨address, rfl⟩ := Int.eq_ofNat_of_zero_le low
      refine ⟨address, hv, ?_⟩
      have noLiteral : Expr.literal? x = none := by
        rw [← Option.not_isSome_iff_eq_none]
        intro literal
        rw [number literal] at hl
        cases hl
      have read : Expr.Atom.read x = .name (String.ofList (upper x)) := by
        rw [Expr.Atom.read, noLiteral, trimmed]
        cases hu : upper x with
        | nil => rw [hu] at full; exact absurd rfl full
        | cons c rest => rfl
      have known : (Expr.read x).whole.value? p.env.scope = some (address : Int) := by
        show (Expr.Atom.read x).value? p.env.scope = _
        rw [read]
        show (p.symbols.get? _).or _ = _
        rw [hv, Option.some_or]
      rw [Machine.Env.value?, Expr.value?, known]
      dsimp only
      rw [word_natCast (by omega)]
  | none =>
      rw [atExpression_of_unlabelled trimmed hl (letters hl)] at h ⊢
      cases hv : p.env.value? (Expr.read x) with
      | none =>
          rw [hv] at h
          cases h
      | some address =>
          rw [hv] at h
          dsimp only at h ⊢
          split at h
          case isTrue => cases h
          case isFalse above =>
              rw [if_neg above]
              exact ⟨address, rfl, rfl⟩

/-- Where the walk finds a line, and the operand is plain, the machine finds its address in a
register of a jump or as the value of an expression. -/
theorem address_of_destination (hl : p.line? number = some line) (plain : p.PlainTarget line)
    {target : Nat} (h : (p.destination m (targetMode? line)).line = some target) :
    (∃ mode, targetMode? line = some mode ∧ mode.isRegister = true) ∨
      ∃ mode e, ∃ address : Nat, targetMode? line = some mode ∧ mode.address? = some e ∧
        (p.destination m (targetMode? line)).address = some (address : Int) ∧
        p.env.value? e = some address := by
  cases hm : targetMode? line with
  | none =>
      rw [hm] at h
      cases h
  | some mode =>
      rw [hm] at h
      obtain ⟨operand, ho, he⟩ := Option.map_eq_some_iff.mp hm
      obtain ⟨text, rfl⟩ : ∃ text, operand = Operand.parse text := by
        subst hp
        exact exists_of_target hl ho
      have read : mode = Operand.modeOf (trim text) := he.symm
      cases ha : mode.address? with
      | some e =>
          obtain ⟨x, trimmed, rfl⟩ := Operand.exists_of_address (trim_trim text) (read ▸ ha)
          have bound : (targetMode? line).bind Mode.address? = some (Expr.read x) := by
            rw [hm, Option.bind_some, ha]
          have number := plain.number _ bound
          have letters := plain.letters _ bound
          have text : (Expr.read x).text.toList = x := String.toList_ofList
          rw [text] at number letters
          rw [destination_of_address ha] at h ⊢
          obtain ⟨address, found, value⟩ := value_of_atExpression hp trimmed number letters h
          exact .inr ⟨mode, Expr.read x, address, rfl, ha, found, value⟩
      | none =>
          cases mode with
          | indexed x offset => exact .inl ⟨_, rfl, rfl⟩
          | immediate | absolute => cases ha
          | reg8 | reg16 => cases (line_atExpression_empty hp).symm.trans h
          | indirect pointer =>
              cases pointer with
              | hl => exact .inl ⟨_, rfl, rfl⟩
              | bc | de | sp | c => cases (line_atExpression_empty hp).symm.trans h

/-- Where the walk goes on, the machine is: if a call, restart or jump is taken to a plain target,
and the walk finds a line for it, then the walk also knows the address of that line, and the machine
that has executed the transfer has it in its program counter. -/
theorem target_agrees (hl : p.line? number = some line)
    (transfer : line.transfer? = some .call ∨ line.transfer? = some .jump)
    (plain : p.PlainTarget line) (taken : m.flags.allow line.instruction.condition = true)
    {target : Nat} (enters : (p.destination m (targetMode? line)).line = some target) :
    ∃ address n, (p.destination m (targetMode? line)).address = some address ∧
      p.executeLine line m = .ok n ∧ n.registers.pc = word address ∧
      (m.WellFormed → (n.registers.pc : Int) = address) := by
  have wraps (value : Nat) : value % 65536 = word value := by
    unfold word
    omega
  obtain ⟨mode, hm, register⟩ | ⟨mode, e, address, hm, expression, found, value⟩ :=
    address_of_destination hp hl plain enters
  · -- through a register: only a jump is left
    have jump : line.transfer? = some .jump := by
      refine transfer.resolve_left fun call => ?_
      have none := plain.register call
      rw [hm, Option.any_some, register] at none
      cases none
    have jumped := executeLine_jump (p := p) jump taken
    rw [hm] at jumped ⊢
    cases mode with
    | indirect pointer =>
        cases pointer with
        | hl =>
            refine ⟨m.registers.hl, _, rfl, jumped, ?_, fun wf => ?_⟩
            · show (m.arriveAt line.address).registers.hl % 65536 = _
              rw [Machine.hl_arriveAt, wraps]
            · show (((m.arriveAt line.address).registers.hl % 65536 : Nat) : Int) = _
              rw [Machine.hl_arriveAt, Nat.mod_eq_of_lt (wf.registers.hl_lt)]
        | bc | de | sp | c => cases register
    | indexed x offset =>
        refine ⟨m.registers.index x, _, rfl, jumped, ?_, fun wf => ?_⟩
        · show (m.arriveAt line.address).registers.index x % 65536 = _
          rw [Machine.index_arriveAt, wraps]
        · show (((m.arriveAt line.address).registers.index x % 65536 : Nat) : Int) = _
          rw [Machine.index_arriveAt, Nat.mod_eq_of_lt (wf.registers.index_lt x)]
    | reg8 | reg16 | immediate | absolute => cases register
  · have small : address < 65536 := Expr.value?_lt value
    have called : Machine.calledAddress? p.env (targetMode? line) = some address := by
      rw [hm, calledAddress?_of_address expression, value]
    have there : ∃ n, p.executeLine line m = .ok n ∧ n.registers.pc = address % 65536 := by
      cases transfer with
      | inl call =>
          obtain ⟨length, executed⟩ := executeLine_call (p := p) call taken
          exact ⟨_, executed, Machine.pc_call called length⟩
      | inr jump =>
          refine ⟨_, executeLine_jump jump taken, ?_⟩
          rw [hm, jump_of_address expression, value]
          rfl
    obtain ⟨n, executed, pc⟩ := there
    rw [Nat.mod_eq_of_lt small] at pc
    refine ⟨address, n, found, executed, ?_, fun _ => by rw [pc]⟩
    rw [pc, ← wraps, Nat.mod_eq_of_lt small]

end

/-- A call to an address behind a label. -/
def offsetCall : Program :=
  ofAnalysis {} (Analysis.ofSource {}
    "      ORG $4000\nMAIN: CALL SUB+1\n      RET\nSUB:  NOP\n      RET" "")

/-- The line of the call. -/
def offsetLine : CodeLine :=
  ⟨⟨.mnemonic .call, none, [⟨"SUB+1", .immediate (Expr.ofString "SUB+1")⟩], "SUB+1"⟩,
    some 0x4000⟩

theorem plainTarget_offset : offsetCall.PlainTarget offsetLine where
  register _ := rfl
  number e he literal := by
    cases he
    exact absurd literal (by decide +kernel)
  letters e he _ := by
    cases he
    exact Expr.not_holdsLower_of_unquoted (by decide +kernel)

theorem target_agrees_offset : ∃ address n,
    (offsetCall.destination (Machine.initial {}) (targetMode? offsetLine)).address =
        some address ∧
      offsetCall.executeLine offsetLine (Machine.initial {}) = .ok n ∧
      n.registers.pc = word address ∧
      ((Machine.initial {}).WellFormed → (n.registers.pc : Int) = address) :=
  target_agrees (p := offsetCall) rfl (by decide +kernel : offsetCall.line? 2 = some offsetLine)
    (.inl rfl) plainTarget_offset rfl
    (by decide +kernel :
      (offsetCall.destination (Machine.initial {}) (targetMode? offsetLine)).line = some 5)

/-- Where the walk goes from a line, and the program counter of the machine that has executed
it. -/
def targets (p : Program) (number : Nat) (m : Machine) : Option (Destination × Option Nat) :=
  (p.line? number).map fun line =>
    (p.destination m (targetMode? line),
      (p.executeLine line m).toOption.map fun n => n.registers.pc)

/-- Walk and machine part at a character literal in small letters, at a label that is spelled as a
number, and at a call through a register. -/
theorem targets_part :
    (ofAnalysis {} (Analysis.ofSource {} ("      ORG $4041\nONE:  RET\n      ORG $4061\n" ++
        "TWO:  RET\n      ORG $4100\nMAIN: JP 'a'+$4000") "")).targets 6 (Machine.initial {}) =
      some (⟨some 2, some 0x4041⟩, some 0x4061) ∧
    (ofAnalysis {} (Analysis.ofSource {} "      ORG $4000\n$5000 NOP\nMAIN: JP $5000"
        "")).targets 3 (Machine.initial {}) = some (⟨some 2, some 0x4000⟩, some 0x5000) ∧
    (ofAnalysis {} (Analysis.ofSource {} "      ORG $4000\nMAIN: CALL (HL)\nSUB:  RET"
        "")).targets 2 ((Machine.initial {}).setHl 0x4003) =
      some (⟨some 3, some 0x4003⟩, some 0x4000) :=
  ⟨by decide +kernel, by decide +kernel, by decide +kernel⟩

end Program

end Z80Workbench
