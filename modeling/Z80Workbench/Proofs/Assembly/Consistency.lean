import Z80Workbench.Proofs.Assembly.Declarations

/-!
# Z80Workbench.Proofs.Assembly.Consistency

How the tables of a layout agree: the symbols, the labels, the constants and the addresses of the
lines.  Here a name may be bound as often as one likes, as a label and as a constant.  A label has
the address of the line that declared it last, unless a constant has its name too; a constant
without a value binds nothing and does not count.
-/

namespace Z80Workbench

namespace Layout

/-- The tables of a layout agree with each other. -/
structure Consistent (layout : Layout) : Prop where
  /-- Symbols are words. -/
  range : ∀ name value, layout.symbols.get? name = some value → 0 ≤ value ∧ value ≤ 65535
  /-- The symbols are the labels and the constants. -/
  names : ∀ name, name ∈ layout.symbols.keys ↔
    name ∈ layout.labels.keys ∨ name ∈ layout.constants.map (·.name)
  /-- No line has two addresses. -/
  once : (layout.addresses.map (·.1)).Nodup
  /-- The line of a label has an address. -/
  placed : ∀ name number, layout.labels.get? name = some number →
    (Table.lookup number layout.addresses).isSome
  /-- It is the value of the label, unless a constant has the same name. -/
  bound : ∀ name number, layout.labels.get? name = some number →
    layout.isConstant name = false →
      layout.symbols.get? name = (Table.lookup number layout.addresses).map Int.ofNat

namespace Scan

variable {fallback : String → Option Int} {scan : Scan} {line : SourceLine}

/-- A line so far has made the name a constant. -/
def Defines (scan : Scan) (name : String) : Prop :=
  ∃ p ∈ scan.placed, p.isEqu = true ∧ name ∈ p.names

/-- A step adds the names of its line to the constants if the line defines constants. -/
theorem defines_next {name : String} : (scan.next fallback line).Defines name ↔
    ((scan.placement fallback line).isEqu = true ∧ name ∈ (scan.placement fallback line).names) ∨
      scan.Defines name := by
  simp only [Defines, placed_next, List.mem_cons, exists_eq_or_imp]

/-- A step adds the names of its line to the symbols. -/
theorem mem_symbols_next {name : String} : name ∈ (scan.next fallback line).symbols.keys ↔
    name ∈ (scan.placement fallback line).names ∨ name ∈ scan.symbols.keys := by
  obtain ⟨value, bound⟩ := symbols_next fallback scan line
  rw [Table.mem_keys_iff, Table.mem_keys_iff, bound]
  split
  case isTrue hn => simp [hn]
  case isFalse hn => simp [hn]

/-- A step declares the names of its line, unless the line defines constants. -/
theorem get?_labels_next (name : String) : (scan.next fallback line).labels.get? name =
    if (scan.placement fallback line).isEqu = false ∧
        name ∈ (scan.placement fallback line).names then some line.number
    else scan.labels.get? name := by
  rw [labels_next]
  cases constant : (scan.placement fallback line).isEqu with
  | true => simp
  | false => simp [Table.get?_foldl_insert, (address_placement constant).2]

/-- The label is declared on a line with an address, which is its value unless a constant has the
same name. -/
def Holds (scan : Scan) (name : String) (number : Nat) : Prop :=
  ∃ p ∈ scan.placed, p.line.number = number ∧ ∃ address : Nat, p.address = some address ∧
    (scan.Defines name ∨ scan.symbols.get? name = some (address : Int))

/-- The symbols are the labels and the constants, and labels are declared. -/
structure Agrees (scan : Scan) : Prop where
  names : ∀ name, name ∈ scan.symbols.keys ↔ name ∈ scan.labels.keys ∨ scan.Defines name
  declared : ∀ name number, scan.labels.get? name = some number → scan.Holds name number

theorem agrees_start : start.Agrees where
  names name := by simp [start, Defines, Table.mem_keys_iff]
  declared := nofun

/-- What a label holds is kept unless the next line declares it again; if the line makes it a
constant, its value no longer counts. -/
theorem Holds.next {name : String} {number : Nat} (h : scan.Holds name number)
    (other : ¬((scan.placement fallback line).isEqu = false ∧
      name ∈ (scan.placement fallback line).names)) :
    (scan.next fallback line).Holds name number := by
  obtain ⟨p, hp, hn, address, ha, hv⟩ := h
  refine ⟨p, List.mem_cons_of_mem _ hp, hn, address, ha, ?_⟩
  rw [defines_next]
  obtain ⟨value, bound⟩ := symbols_next fallback scan line
  by_cases again : name ∈ (scan.placement fallback line).names
  case pos =>
      have constant : (scan.placement fallback line).isEqu = true := by simpa [again] using other
      exact .inl (.inl ⟨constant, again⟩)
  case neg =>
      rw [bound, if_neg again]
      exact hv.imp_left .inr

theorem Agrees.next (h : scan.Agrees) (sound : scan.Sound) :
    (scan.next fallback line).Agrees where
  names name := by
    rw [mem_symbols_next, h.names, defines_next, Table.mem_keys_iff, Table.mem_keys_iff,
      get?_labels_next]
    cases (scan.placement fallback line).isEqu <;>
      by_cases hn : name ∈ (scan.placement fallback line).names <;> simp [hn]
  declared name number hl := by
    rw [get?_labels_next] at hl
    split at hl
    case isTrue on =>
        cases hl
        obtain ⟨plain, hn⟩ := on
        rw [(address_placement plain).2] at hn
        obtain ⟨p, hp, -, number, -, address, lies, value⟩ := declares_next sound plain hn
        exact ⟨p, hp, number, address, lies, .inr value⟩
    case isFalse other => exact (h.declared name number hl).next other

theorem Agrees.foldl (h : scan.Agrees) (sound : scan.Sound) (lines : List SourceLine) :
    (lines.foldl (Scan.next fallback) scan).Agrees := by
  induction lines generalizing scan with
  | nil => exact h
  | cons line rest ih => exact ih (h.next sound) (sound.next line)

end Scan

variable {fallback : String → Option Int} {lines : List SourceLine} {name : String}

/-- The constants are the names of the lines that define constants. -/
theorem mem_constants {layout : Layout} : name ∈ layout.constants.map (·.name) ↔
    ∃ p ∈ layout.placements, p.isEqu = true ∧ name ∈ p.names := by
  simp only [constants, List.map_flatMap, List.mem_flatMap]
  refine exists_congr fun p => and_congr_right fun _ => ?_
  cases p.isEqu <;> cases ha : p.address <;> simp [Placement.names, ha]

theorem mem_constants_ofLines : name ∈ (ofLines fallback lines).constants.map (·.name) ↔
    (lines.foldl (Scan.next fallback) Scan.start).Defines name := by
  simp only [mem_constants, Scan.Defines, ofLines, List.mem_reverse]

/-- Lines with different numbers have one address each. -/
theorem nodup_addresses (distinct : (lines.map (·.number)).Nodup) :
    ((ofLines fallback lines).addresses.map (·.1)).Nodup := by
  rw [← Scan.map_line_placements fallback Scan.start lines, ← placements_ofLines, List.map_map,
    List.Nodup, List.pairwise_map] at distinct
  rw [List.Nodup, List.pairwise_map, addresses, List.pairwise_filterMap]
  refine distinct.imp fun differ first hf second hs => ?_
  obtain ⟨_, -, rfl⟩ := Option.map_eq_some_iff.mp hf
  obtain ⟨_, -, rfl⟩ := Option.map_eq_some_iff.mp hs
  exact differ

/-- The tables of a layout agree for any lines with different numbers, however often they bind the
same name. -/
theorem consistent_ofLines (fallback : String → Option Int) (lines : List SourceLine)
    (distinct : (lines.map (·.number)).Nodup) : (ofLines fallback lines).Consistent := by
  have agrees : (lines.foldl (Scan.next fallback) Scan.start).Agrees :=
    Scan.agrees_start.foldl Scan.sound_start lines
  have once := @nodup_addresses fallback lines distinct
  have lies {name : String} {number : Nat}
      (hl : (ofLines fallback lines).labels.get? name = some number) :
      ∃ address : Nat, Table.lookup number (ofLines fallback lines).addresses = some address ∧
        ((lines.foldl (Scan.next fallback) Scan.start).Defines name ∨
          (ofLines fallback lines).symbols.get? name = some (address : Int)) := by
    obtain ⟨p, hp, rfl, address, ha, hv⟩ := agrees.declared name number hl
    have listed : (p.line.number, address) ∈ (ofLines fallback lines).addresses :=
      List.mem_filterMap.mpr ⟨p, List.mem_reverse.mpr hp, by rw [ha]; rfl⟩
    have found := @Table.get?_of_mem _ _ _ ⟨(ofLines fallback lines).addresses⟩ _ _ once listed
    exact ⟨address, found, hv⟩
  refine ⟨?range, ?names, once, ?placed, ?bound⟩
  case range =>
      intro name value hv
      have word := isAddress_of_symbol hv
      exact ⟨word.1, Int.le_of_lt_add_one word.2⟩
  case names =>
      intro name
      rw [mem_constants_ofLines]
      exact agrees.names name
  case placed =>
      intro name number hl
      obtain ⟨address, found, -⟩ := lies hl
      rw [found]
      rfl
  case bound =>
      intro name number hl plain
      obtain ⟨address, found, constant | value⟩ := lies hl
      · rw [← mem_constants_ofLines] at constant
        obtain ⟨c, hc, rfl⟩ := List.mem_map.mp constant
        exact absurd (beq_self_eq_true c.name) (List.any_eq_false.mp plain c hc)
      · rw [found, value]
        rfl

/-- A label that is declared three times, first as a constant without a value, and a constant that
has been a label before. -/
def rebinding : List SourceLine :=
  Source.parseLines 1
    ["AGAIN EQU NOWHERE", "AGAIN: ORG FAR", "LIMIT: NOP", "AGAIN: NOP", "LIMIT EQU FAR"]

/-- Only `FAR` is known, and lies in front of the start of memory. -/
def farOnly (name : String) : Option Int := if name = "FAR" then some (-2) else none

theorem consistent_ofLines_rebinding :
    (rebinding.map (·.number)).Nodup ∧
      (ofLines farOnly rebinding).labels.get? "AGAIN" = some 4 ∧
      (ofLines farOnly rebinding).symbols.get? "AGAIN" =
        (Table.lookup 4 (ofLines farOnly rebinding).addresses).map Int.ofNat ∧
      Table.lookup 4 (ofLines farOnly rebinding).addresses = some 0xFFFF := by
  have distinct : (rebinding.map (·.number)).Nodup := by decide +kernel
  have label : (ofLines farOnly rebinding).labels.get? "AGAIN" = some 4 := by decide +kernel
  have agree := consistent_ofLines farOnly rebinding distinct
  exact ⟨distinct, label, agree.bound "AGAIN" 4 label (by decide +kernel), by decide +kernel⟩

end Layout

end Z80Workbench
