import Z80Workbench.Assembly.Layout
import Z80Workbench.Proofs.Expr.Growth
import Z80Workbench.Proofs.Table

/-!
# Z80Workbench.Proofs.Assembly.Binding

What the layout of a source binds.  Each line is laid out with the symbols of the lines before
it.  If no two lines bind the same name, these symbols keep their values until the end, which is
the invariant of the scan that is carried through the lines here.
-/

namespace Z80Workbench

open Source (isIdentifier)

/-! ## the names of a line -/

/-- The names that a line binds.  An `EQU` without a value binds none. -/
def Placement.names (p : Placement) : List String :=
  if p.address.isSome then p.line.labels else []

namespace Layout

/-- No two lines bind the same name. -/
def BindsOnce (layout : Layout) : Prop :=
  layout.placements.Pairwise fun p q => ∀ name ∈ p.names, name ∉ q.names

/-- Every name that a line binds is an identifier. -/
def BindsIdentifiers (layout : Layout) : Prop :=
  ∀ p ∈ layout.placements, ∀ name ∈ p.names, isIdentifier name.toList

instance (layout : Layout) : Decidable layout.BindsOnce :=
  inferInstanceAs (Decidable (List.Pairwise _ _))

instance (layout : Layout) : Decidable layout.BindsIdentifiers :=
  inferInstanceAs (Decidable (∀ p ∈ layout.placements, ∀ name ∈ p.names,
    isIdentifier name.toList = true))

namespace Scan

variable {fallback : String → Option Int}

/-- The placement that the next line gets. -/
def placement (fallback : String → Option Int) (scan : Scan) (line : SourceLine) : Placement :=
  .ofExtent line (.ofLine ⟨scan.symbols, fallback⟩ scan.counter line)

/-- The line of a placement is the line that was placed. -/
@[simp] theorem line_placement (scan : Scan) (line : SourceLine) :
    (scan.placement fallback line).line = line := by
  unfold placement Placement.ofExtent
  split <;> rfl

/-- The placements that some lines get, one after the other. -/
def placements (fallback : String → Option Int) (scan : Scan) : List SourceLine → List Placement
  | [] => []
  | line :: rest =>
    scan.placement fallback line :: (scan.next fallback line).placements fallback rest

/-- Every line gets a placement. -/
theorem map_line_placements (fallback : String → Option Int) (scan : Scan)
    (lines : List SourceLine) :
    (scan.placements fallback lines).map (·.line) = lines := by
  induction lines generalizing scan with
  | nil => rfl
  | cons line rest ih => rw [placements, List.map_cons, line_placement, ih]

theorem placed_next (scan : Scan) (line : SourceLine) :
    (scan.next fallback line).placed = scan.placement fallback line :: scan.placed := rfl

/-- A scan keeps the placements of its lines, latest first. -/
theorem placed_foldl (scan : Scan) (lines : List SourceLine) :
    (lines.foldl (Scan.next fallback) scan).placed =
      (scan.placements fallback lines).reverse ++ scan.placed := by
  induction lines generalizing scan with
  | nil => rfl
  | cons line rest ih =>
      rw [List.foldl_cons, ih, placed_next, placements, List.reverse_cons, List.append_assoc]
      rfl

/-- A step binds the names of its line to one value, which is the address of the line unless it is a
constant. -/
theorem exists_symbols_next (fallback : String → Option Int) (scan : Scan) (line : SourceLine) :
    ∃ value : Int, (scan.next fallback line).symbols =
        (scan.placement fallback line).names.foldl (fun table name => table.insert name value)
          scan.symbols ∧
      ((scan.placement fallback line).isEqu = false →
        value = (Extent.ofLine ⟨scan.symbols, fallback⟩ scan.counter line).address) := by
  simp only [next, bind, placement, Placement.ofExtent, Placement.names, Placement.isEqu]
  split
  case isTrue constant =>
      cases hv : (Extent.ofLine ⟨scan.symbols, fallback⟩ scan.counter line).value with
      | none => exact ⟨0, by simp [constant]⟩
      | some value => exact ⟨value, by simp [constant]⟩
  case isFalse => exact ⟨_, by simp, fun _ => rfl⟩

/-- A step leaves the other symbols. -/
theorem symbols_next (fallback : String → Option Int) (scan : Scan) (line : SourceLine) :
    ∃ value : Int, ∀ name,
    (scan.next fallback line).symbols.get? name =
      if name ∈ (scan.placement fallback line).names then some value
      else scan.symbols.get? name := by
  obtain ⟨value, bound, -⟩ := exists_symbols_next fallback scan line
  exact ⟨value, fun name => by rw [bound, Table.get?_foldl_insert]⟩

/-- Every symbol is a name of a line laid out so far. -/
def Listed (scan : Scan) : Prop :=
  ∀ ⦃name value⦄, scan.symbols.get? name = some value → ∃ p ∈ scan.placed, name ∈ p.names

theorem listed_start : start.Listed :=
  fun _ _ h => nomatch h

theorem Listed.next {scan : Scan} (h : scan.Listed) (line : SourceLine) :
    (scan.next fallback line).Listed := by
  intro name value hv
  obtain ⟨given, hg⟩ := symbols_next fallback scan line
  rw [hg] at hv
  rw [placed_next]
  split at hv
  case isTrue hn => exact ⟨_, List.mem_cons_self, hn⟩
  case isFalse =>
      obtain ⟨p, hp, hn⟩ := h hv
      exact ⟨p, List.mem_cons_of_mem _ hp, hn⟩

theorem Listed.foldl (fallback : String → Option Int) {scan : Scan} (h : scan.Listed)
    (lines : List SourceLine) : (lines.foldl (Scan.next fallback) scan).Listed := by
  induction lines generalizing scan with
  | nil => exact h
  | cons line rest ih => exact ih (h.next line)

/-- What has been placed stays placed. -/
theorem placed_suffix (scan : Scan) (lines : List SourceLine) :
    scan.placed <:+ (lines.foldl (Scan.next fallback) scan).placed :=
  ⟨_, (placed_foldl scan lines).symm⟩

/-- If no name is bound twice, symbols keep their values while more lines are laid out. -/
theorem Listed.get?_foldl {scan : Scan} (h : scan.Listed) {lines : List SourceLine}
    (once : (lines.foldl (Scan.next fallback) scan).placed.Pairwise
      fun q p => ∀ name ∈ p.names, name ∉ q.names)
    {name : String} {value : Int} (hv : scan.symbols.get? name = some value) :
    (lines.foldl (Scan.next fallback) scan).symbols.get? name = some value := by
  induction lines generalizing scan with
  | nil => exact hv
  | cons line rest ih =>
      refine ih (h.next line) once ?_
      obtain ⟨p, hp, hn⟩ := h hv
      have front := once.sublist (placed_suffix (scan.next fallback line) rest).sublist
      rw [placed_next] at front
      have absent : name ∉ (scan.placement fallback line).names :=
        List.rel_of_pairwise_cons front hp name hn
      obtain ⟨given, hg⟩ := symbols_next fallback scan line
      rw [hg, if_neg absent, hv]

/-- A line is placed where the lines before it lead. -/
theorem exists_of_mem_placements {scan : Scan} {lines : List SourceLine} {p : Placement}
    (h : p ∈ scan.placements fallback lines) :
    ∃ before line after, lines = before ++ line :: after ∧
      p = (before.foldl (Scan.next fallback) scan).placement fallback line := by
  induction lines generalizing scan with
  | nil => exact absurd h List.not_mem_nil
  | cons line rest ih =>
      cases List.mem_cons.mp h with
      | inl he => exact ⟨[], line, rest, rfl, he⟩
      | inr hr =>
          obtain ⟨before, found, after, rfl, he⟩ := ih hr
          exact ⟨line :: before, found, after, rfl, he⟩

end Scan

variable {fallback : String → Option Int} {lines : List SourceLine}

theorem placements_ofLines :
    (ofLines fallback lines).placements = Scan.start.placements fallback lines := by
  rw [ofLines, Scan.placed_foldl, List.reverse_append, List.reverse_reverse]
  rfl

/-- Every placement is that of a line at the place where the lines before it lead. -/
theorem exists_of_mem_placements {p : Placement}
    (h : p ∈ (ofLines fallback lines).placements) :
    ∃ before line after, lines = before ++ line :: after ∧
      p = (before.foldl (Scan.next fallback) Scan.start).placement fallback line := by
  rw [placements_ofLines] at h
  exact Scan.exists_of_mem_placements h

/-- Every line but a constant has an address. -/
theorem isSome_address {p : Placement} (h : p ∈ (ofLines fallback lines).placements)
    (hne : p.line.operation ≠ some (.directive .equ)) : p.address.isSome := by
  obtain ⟨before, line, after, -, rfl⟩ := exists_of_mem_placements h
  rw [Scan.line_placement] at hne
  rw [Scan.placement, Placement.ofExtent, if_neg hne]
  rfl

/-- If no name is bound twice, the symbols that a line is laid out with are among those of the
whole source. -/
theorem symbols_extend (once : (ofLines fallback lines).BindsOnce)
    {before after : List SourceLine} (h : lines = before ++ after) {name : String} {value : Int}
    (hv : (before.foldl (Scan.next fallback) Scan.start).symbols.get? name = some value) :
    (ofLines fallback lines).symbols.get? name = some value := by
  rw [BindsOnce, ofLines, List.pairwise_reverse, h, List.foldl_append] at once
  rw [ofLines, h, List.foldl_append]
  exact (Scan.listed_start.foldl fallback before).get?_foldl once hv

/-- Every symbol is a name of a line. -/
theorem mem_names_of_symbol {name : String} {value : Int}
    (h : (ofLines fallback lines).symbols.get? name = some value) :
    ∃ p ∈ (ofLines fallback lines).placements, name ∈ p.names := by
  obtain ⟨p, hp, hn⟩ := Scan.listed_start.foldl fallback lines h
  exact ⟨p, List.mem_reverse.mpr hp, hn⟩

/-- If lines bind only identifiers and a second resolver knows only identifiers, then all names
with a value are identifiers. -/
theorem knowsIdentifiers {resolve : String → Option Int}
    (identifiers : (ofLines fallback lines).BindsIdentifiers)
    (known : Expr.KnowsIdentifiers resolve) :
    Expr.KnowsIdentifiers (Expr.Scope.value? ⟨(ofLines fallback lines).symbols, resolve⟩) := by
  intro text name value ha hv
  rw [Expr.Scope.value?, Option.or_eq_some_iff] at hv
  cases hv with
  | inl hs =>
      obtain ⟨p, hp, hn⟩ := mem_names_of_symbol hs
      exact identifiers p hp name hn
  | inr hf => exact known ha hf.2

end Layout

end Z80Workbench
