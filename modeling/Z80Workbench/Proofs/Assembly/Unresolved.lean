import Z80Workbench.Assembly.Analysis
import Z80Workbench.Proofs.Assembly.Binding
import Z80Workbench.Proofs.Code.Reads

/-!
# Z80Workbench.Proofs.Assembly.Unresolved

Values that cannot be resolved.  The image is assembled with all symbols known, and every value in
it that has none is reported as an error of its line.  The layout reports nothing: an origin, a
constant or a count of bytes without a value, and an offset that is not read, pass silently.
-/

namespace Z80Workbench

open Text Source

namespace Placement

/-- The expressions whose values the image holds: the values of data, the value that space is
filled with, and the operands of an instruction. -/
def expressions (p : Placement) : List Expr :=
  let tokens := splitData p.line.args.toList
  match p.line.operation with
  | some (.directive d) =>
    if d.storesBytes then (tokens.filter fun token => (quotedText? token).isNone).map Expr.read
    else if d.storesWords then tokens.map Expr.read
    else if d.reservesSpace then tokens.tail.head?.toList.map Expr.read
    else []
  | some (.mnemonic m) => (Instruction.ofArgs (.mnemonic m) p.line.args.toList).expressions
  | _ => []

/-- Whether the line is an exchange of the top of the stack that has its pair in parentheses. -/
def isPointedExchange (p : Placement) : Bool :=
  match p.line.operation with
  | some (.mnemonic m) => (Instruction.ofArgs (.mnemonic m) p.line.args.toList).isPointedExchange
  | _ => false

/-- The line can be assembled: its values are known, or its instruction can be encoded. -/
def Assembles (scope : Expr.Scope) (p : Placement) : Prop :=
  match p.line.operation with
  | some (.directive _) => ∀ e ∈ p.expressions, (e.value? scope).isSome
  | some (.mnemonic m) => ∀ address, p.address = some address →
      ∃ bytes, (Instruction.ofArgs (.mnemonic m) p.line.args.toList).encode
        { scope, address := some address } = .ok bytes
  | _ => True

end Placement

/-- In a line that can be assembled, every value is known, unless it is an exchange that does not
read its offset. -/
theorem Placement.isSome_of_assembles {scope : Expr.Scope} {p : Placement}
    (h : p.Assembles scope) (placed : p.line.operation ≠ some (.directive .equ) → p.address.isSome)
    (plain : p.isPointedExchange = false) {e : Expr} (he : e ∈ p.expressions) :
    (e.value? scope).isSome := by
  unfold Assembles at h
  split at h
  case h_1 => exact h e he
  case h_2 m hm =>
      obtain ⟨address, ha⟩ := Option.isSome_iff_exists.mp (placed (by simp [hm]))
      obtain ⟨bytes, hb⟩ := h address ha
      simp only [isPointedExchange, expressions, hm] at plain he
      exact Instruction.isSome_of_encode rfl hb plain he
  case h_3 directive mnemonic =>
      unfold expressions at he
      split at he
      case h_1 d hd => exact absurd hd (directive d)
      case h_2 m hm => exact absurd hm (mnemonic m)
      case h_3 => cases he

namespace Image

variable {setting : Setting} {line : SourceLine} {p : Placement}

/-! ## errors of one line -/

theorem errors_ofBytes_eq_nil :
    (ofBytes setting line).errors = [] ↔
      ∀ e ∈ ((splitData line.args.toList).filter fun token => (quotedText? token).isNone).map
        Expr.read, (e.value? setting.scope).isSome := by
  rw [List.forall_mem_map]
  simp [ofBytes, List.filter_eq_nil_iff, lacksValue, Option.isSome_iff_ne_none]

theorem errors_ofWords_eq_nil :
    (ofWords setting line).errors = [] ↔
      ∀ e ∈ (splitData line.args.toList).map Expr.read, (e.value? setting.scope).isSome := by
  simp [ofWords, List.filter_eq_nil_iff, Option.isSome_iff_ne_none]

theorem errors_ofSpace_eq_nil {size : Nat} :
    (ofSpace setting line size).errors = [] ↔
      ∀ e ∈ (splitData line.args.toList).tail.head?.toList.map Expr.read,
        (e.value? setting.scope).isSome := by
  unfold ofSpace
  split
  case h_1 count fill rest hs =>
      rw [hs]
      cases hv : (Expr.read fill).value? setting.scope <;> simp [hv]
  case h_2 other =>
      refine iff_of_true rfl ?_
      match hs : splitData line.args.toList with
      | [] | [_] => simp
      | count :: fill :: rest => exact absurd hs (other count fill rest)

theorem errors_ofInstruction_eq_nil {operation : Operation} {address size : Nat} :
    (ofInstruction setting line operation address size).errors = [] ↔
      ∃ bytes, (Instruction.ofArgs operation line.args.toList).encode
        { scope := setting.scope, address := some address } = .ok bytes := by
  unfold ofInstruction
  dsimp only
  split
  case h_1 bytes hb => exact iff_of_true rfl ⟨bytes, hb⟩
  case h_2 cause hc =>
      refine iff_of_false nofun ?_
      rintro ⟨bytes, hb⟩
      rw [hc] at hb
      cases hb

/-- A line reports nothing exactly if it can be assembled. -/
theorem errors_ofPlacement_eq_nil
    (placed : p.line.operation ≠ some (.directive .equ) → p.address.isSome) :
    (ofPlacement setting p).errors = [] ↔ p.Assembles setting.scope := by
  unfold ofPlacement Placement.Assembles
  split
  case h_1 d address hd ha =>
      simp only [hd, Placement.expressions]
      split
      · exact errors_ofBytes_eq_nil
      split
      · exact errors_ofWords_eq_nil
      split
      · exact errors_ofSpace_eq_nil
      · exact iff_of_true rfl nofun
  case h_2 m address hm ha =>
      simp only [hm, ha, errors_ofInstruction_eq_nil, Option.some.injEq, forall_eq']
  case h_3 word address hu ha => simp only [hu]
  case h_4 directive mnemonic unknown =>
      refine iff_of_true rfl ?_
      split
      case h_1 d hd =>
          by_cases he : d = .equ
          · rw [Placement.expressions, hd, he]
            exact nofun
          · obtain ⟨address, ha⟩ := Option.isSome_iff_exists.mp (placed (by simp [hd, he]))
            exact absurd ha (directive d address hd)
      case h_2 m hm => exact fun address ha => absurd ha (mnemonic m address hm)
      case h_3 => trivial

/-- The errors of an image are those of its lines. -/
theorem errors_ofLayout (fallback : String → Option Int) (file : String) (layout : Layout) :
    (ofLayout fallback file layout).diagnostics.errors =
      layout.placements.flatMap fun p =>
        (ofPlacement ⟨⟨layout.symbols, fallback⟩, file⟩ p).errors :=
  List.flatMap_map ..

/-- What a line reports has the place of the line. -/
theorem location_of_mem_errors {d : Diagnostic} (h : d ∈ (ofPlacement setting p).errors) :
    d.location = some ⟨setting.file, p.line.number, 0⟩ := by
  have unresolved : ∀ tokens : List (List Char),
      d ∈ tokens.map (unresolvedValue setting p.line) →
        d.location = some ⟨setting.file, p.line.number, 0⟩ := by
    intro tokens hd
    obtain ⟨token, -, rfl⟩ := List.mem_map.mp hd
    rfl
  unfold ofPlacement at h
  split at h
  case h_1 =>
      split at h
      · exact unresolved _ h
      split at h
      · exact unresolved _ h
      split at h
      · unfold ofSpace at h
        split at h
        · split at h
          · cases h
          · exact unresolved [_] h
        · cases h
      · cases h
  case h_2 =>
      unfold ofInstruction at h
      dsimp only at h
      split at h
      · cases h
      · cases List.mem_singleton.mp h
        rfl
  case h_3 => cases h
  case h_4 => cases h

end Image

namespace Analysis

/-- What names stand for once the whole source is laid out. -/
def scope (a : Analysis) : Expr.Scope := ⟨a.symbols, Firmware.address?⟩

variable {settings : Settings} {source file : String} {p : Placement}

/-! ## errors of a source -/

theorem errors_image :
    (ofSource settings source file).image.diagnostics.errors =
      (ofSource settings source file).layout.placements.flatMap fun p =>
        (Image.ofPlacement ⟨(ofSource settings source file).scope, file⟩ p).errors :=
  Image.errors_ofLayout ..

/-- A line reports nothing exactly if it can be assembled. -/
theorem errors_ofPlacement_eq_nil
    (hp : p ∈ (ofSource settings source file).layout.placements) :
    (Image.ofPlacement ⟨(ofSource settings source file).scope, file⟩ p).errors = [] ↔
      p.Assembles (ofSource settings source file).scope :=
  Image.errors_ofPlacement_eq_nil (Layout.isSome_address hp)

/-- A line that cannot be assembled has an error at its place. -/
theorem exists_error (hp : p ∈ (ofSource settings source file).layout.placements)
    (h : ¬ p.Assembles (ofSource settings source file).scope) :
    ∃ d ∈ (ofSource settings source file).diagnostics.errors,
      d.location = some ⟨file, p.line.number, 0⟩ := by
  rw [← errors_ofPlacement_eq_nil hp] at h
  obtain ⟨d, hd⟩ := List.exists_mem_of_ne_nil _ h
  refine ⟨d, List.mem_append_right _ ?_, Image.location_of_mem_errors hd⟩
  rw [errors_image]
  exact List.mem_flatMap_of_mem hp hd

/-- Whatever value of the image cannot be resolved is reported at its line, but for the offset of
an exchange that does not read it; and a source without errors is one whose repeated blocks are in
order and whose lines can all be assembled.  What the values of origins, constants and counts of
bytes are plays no part in it. -/
theorem unresolved_reported (settings : Settings) (source file : String) :
    (∀ p ∈ (ofSource settings source file).layout.placements, ∀ e ∈ p.expressions,
      e.value? (ofSource settings source file).scope = none → p.isPointedExchange = false →
        ∃ d ∈ (ofSource settings source file).diagnostics.errors,
          d.location = some ⟨file, p.line.number, 0⟩) ∧
    ((ofSource settings source file).diagnostics.errors = [] ↔
      (ofSource settings source file).expansion.errors = [] ∧
        ∀ p ∈ (ofSource settings source file).layout.placements,
          p.Assembles (ofSource settings source file).scope) := by
  constructor
  · intro p hp e he unresolved plain
    refine exists_error hp fun h => ?_
    have known := Placement.isSome_of_assembles h (Layout.isSome_address hp) plain he
    rw [unresolved] at known
    cases known
  · have parts : (ofSource settings source file).diagnostics.errors =
        (ofSource settings source file).expansion.errors ++
          (ofSource settings source file).image.diagnostics.errors := rfl
    rw [parts, List.append_eq_nil_iff, errors_image, List.flatMap_eq_nil_iff]
    exact and_congr_right fun _ => forall₂_congr fun p => errors_ofPlacement_eq_nil

theorem unresolved_reported_load :
    ∃ d ∈ (ofSource {} "START: LD A,NOWHERE" "game.asm").diagnostics.errors,
      d.location = some ⟨"game.asm", 1, 0⟩ := by
  let line : SourceLine :=
    ⟨1, "START: LD A,NOWHERE", ["START"], some (.mnemonic .ld), "A,NOWHERE"⟩
  exact (unresolved_reported {} "START: LD A,NOWHERE" "game.asm").1 ⟨line, some 0, 2⟩
    (by decide +kernel) (Expr.ofString "NOWHERE") (by decide +kernel) (by decide +kernel)
    (by decide +kernel)

/-- No origin, constant, count or offset in these lines has a value. -/
def silentLines : String :=
  "  ORG NOWHERE\nBASE: EQU NOWHERE\n  DS NOWHERE\n  EX (SP),(IX+NOWHERE)\n"

theorem unresolved_silent :
    (ofSource {} silentLines "").diagnostics.errors = [] ∧
      (ofSource {} silentLines "").symbols.keys = [] ∧
      (Expr.ofString "NOWHERE").value? (ofSource {} silentLines "").scope = none := by
  decide +kernel

end Analysis

end Z80Workbench
