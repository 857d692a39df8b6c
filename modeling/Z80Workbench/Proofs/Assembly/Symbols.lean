import Z80Workbench.Assembly.Analysis
import Z80Workbench.Proofs.Assembly.Binding
import Z80Workbench.Proofs.Source.LabelLine

/-!
# Z80Workbench.Proofs.Assembly.Symbols

The symbols of a layout.  The address counter stays below the end of memory, and so do the values
that are bound to it; and every label is bound as a symbol on the same line.
-/

namespace Z80Workbench

open Text

/-! ## addresses of a layout -/

/-- The value is an address. -/
def IsAddress (value : Int) : Prop := 0 ≤ value ∧ value < 65536

namespace Extent

variable {scope : Expr.Scope} {address : Int}

/-- From an address, a line leads to an address, and so do its labels and its constant. -/
theorem isAddress_ofLine (h : IsAddress address) (line : SourceLine) :
    IsAddress (ofLine scope address line).address ∧ IsAddress (ofLine scope address line).next ∧
      ∀ value, (ofLine scope address line).value = some value → IsAddress value := by
  have origin : IsAddress (((Expr.ofString line.args).value? scope).elim address Int.ofNat) := by
    cases hv : (Expr.ofString line.args).value? scope with
    | none => exact h
    | some n =>
        have small := Expr.value?_lt hv
        exact ⟨Int.natCast_nonneg n, by show (n : Int) < 65536; omega⟩
  have wrapped (n : Int) : IsAddress (n % 65536) :=
    ⟨Int.emod_nonneg n (by decide), Int.emod_lt_of_pos n (by decide)⟩
  unfold ofLine
  split
  · exact ⟨origin, origin, nofun⟩
  · refine ⟨h, h, fun value hv => ?_⟩
    have small := Expr.value?_lt hv
    exact ⟨Int.natCast_nonneg value, by omega⟩
  · exact ⟨h, wrapped _, nofun⟩
  · exact ⟨h, wrapped _, nofun⟩

end Extent

namespace Layout

/-- The name is the label of a line. -/
def IsLabelOf (lines : List SourceLine) (name : String) : Prop :=
  ∃ line ∈ lines, name ∈ line.labels

namespace Scan

variable {fallback : String → Option Int} {scan : Scan}

/-- The counter and all symbols are addresses, and labels are symbols. -/
structure Sound (scan : Scan) : Prop where
  counter : IsAddress scan.counter
  symbols : ∀ name value, scan.symbols.get? name = some value → IsAddress value
  labels : ∀ name number, scan.labels.get? name = some number →
    ∃ value, scan.symbols.get? name = some value

theorem sound_start : start.Sound := ⟨⟨by decide, by decide⟩, nofun, nofun⟩

theorem Sound.next (h : scan.Sound) (line : SourceLine) : (scan.next fallback line).Sound := by
  obtain ⟨address, next, value⟩ :
      IsAddress (Extent.ofLine ⟨scan.symbols, fallback⟩ scan.counter line).address ∧ _ :=
    Extent.isAddress_ofLine h.counter line
  have bound (given : Int) (hg : IsAddress given) (name : String) (found : Int)
      (hf : (line.labels.foldl (fun t label => t.insert label given) scan.symbols).get? name =
        some found) : IsAddress found := by
    rw [Table.get?_foldl_insert] at hf
    split at hf
    · cases hf
      exact hg
    · exact h.symbols name found hf
  have kept (given : Int) (name : String) (number : Nat)
      (hl : name ∈ line.labels ∨ scan.labels.get? name = some number) :
      ∃ found, (line.labels.foldl (fun t label => t.insert label given) scan.symbols).get? name =
        some found := by
    rw [Table.get?_foldl_insert]
    split
    case isTrue => exact ⟨given, rfl⟩
    case isFalse other => exact h.labels name number (hl.resolve_left other)
  unfold Scan.next Scan.bind
  dsimp only
  split
  · split
    · exact ⟨next, h.symbols, h.labels⟩
    case h_2 given hg =>
        exact ⟨next, bound given (value given hg), fun name number hl =>
          kept given name number (.inr hl)⟩
  · refine ⟨next, bound _ address, fun name number hl => ?_⟩
    rw [Table.get?_foldl_insert] at hl
    split at hl
    case isTrue on => exact kept _ name number (.inl on)
    case isFalse => exact kept _ name number (.inr hl)

theorem Sound.foldl (h : scan.Sound) (lines : List SourceLine) :
    (lines.foldl (Scan.next fallback) scan).Sound := by
  induction lines generalizing scan with
  | nil => exact h
  | cons line rest ih => exact ih (h.next line)

end Scan

variable {fallback : String → Option Int} {lines : List SourceLine} {name : String}

/-- Every symbol is an address. -/
theorem isAddress_of_symbol {value : Int}
    (h : (ofLines fallback lines).symbols.get? name = some value) : IsAddress value :=
  (Scan.sound_start.foldl lines).symbols name value h

/-- Every label is a symbol. -/
theorem exists_symbol_of_label {number : Nat}
    (h : (ofLines fallback lines).labels.get? name = some number) :
    ∃ value, (ofLines fallback lines).symbols.get? name = some value :=
  (Scan.sound_start.foldl lines).labels name number h

/-- Every symbol is the label of a line. -/
theorem isLabelOf_of_symbol {value : Int}
    (h : (ofLines fallback lines).symbols.get? name = some value) : IsLabelOf lines name := by
  obtain ⟨p, hp, hn⟩ := mem_names_of_symbol h
  obtain ⟨before, line, after, rfl, rfl⟩ := exists_of_mem_placements hp
  rw [Placement.names] at hn
  split at hn
  · rw [Scan.line_placement] at hn
    exact ⟨line, by simp, hn⟩
  · exact absurd hn List.not_mem_nil

end Layout

namespace Analysis

variable {settings : Settings} {source file : String} {name : String}

/-- A symbol of an analysed source is a name in capital letters, and not empty. -/
theorem exists_raw_of_symbol {value : Int}
    (h : (ofSource settings source file).symbols.get? name = some value) :
    ∃ raw, raw ≠ [] ∧ name = String.ofList (upper raw) := by
  obtain ⟨line, hl, hn⟩ := Layout.isLabelOf_of_symbol h
  obtain ⟨⟨text, number⟩, _, hp⟩ := List.mem_filterMap.mp hl
  exact Source.exists_raw_of_parseLine hp hn

/-- It is its own upper case. -/
theorem upperString_of_symbol {value : Int}
    (h : (ofSource settings source file).symbols.get? name = some value) :
    upperString name = name := by
  obtain ⟨raw, _, rfl⟩ := exists_raw_of_symbol h
  rw [upperString, String.toList_ofList, upper_upper]

end Analysis

end Z80Workbench
