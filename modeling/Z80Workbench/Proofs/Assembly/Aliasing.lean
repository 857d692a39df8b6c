import Z80Workbench.Assembly.Aliasing
import Z80Workbench.Proofs.Assembly.Declarations
import Z80Workbench.Proofs.Assembly.Sections
import Z80Workbench.Proofs.StableOrder

/-!
# Z80Workbench.Proofs.Assembly.Aliasing

Labels with nothing between them.  The findings are told from labels in the order of their lines,
each with the next one; labels of one line tell nothing, so that what is found is told by pairs of
neighbouring lines, of which the first has one label at its end and the second one at its start.
Lines that lie one behind the other have the same address exactly if nothing between them takes
any space, as long as it does not take up all of memory.
-/

namespace Z80Workbench

open List (consecutivePairs)
open StableOrder

namespace Placement

/-- The line declares labels.  A constant declares none. -/
def declares (p : Placement) : Bool := !p.isEqu && !p.line.labels.isEmpty

/-- The labels that the line declares, with its number. -/
def declarations (p : Placement) : List (String × Nat) :=
  if p.isEqu then [] else p.line.labels.map (·, p.line.number)

/-- The labels of the line as findings are told from them. -/
def labelled (p : Placement) : List (String × Int) := p.line.labels.map (·, (p.line.number : Int))

end Placement

/-- The finding for two lines at one address.  It names the last label of the first line and the
first label of the second one. -/
def AliasFinding.between (p q : Placement) : AliasFinding where
  kind := if Aliasing.isDataName (p.line.labels.getLastD "") then .emptyData else .fallthrough
  name := p.line.labels.getLastD ""
  nextName := q.line.labels.headD ""
  line := p.line.number
  address := (p.address.getD 0 : Nat)

namespace Layout

/-- The lines that declare labels, in the order of their numbers. -/
def declaring (layout : Layout) : List Placement :=
  inOrder (fun p => p.line.number) (layout.placements.filter Placement.declares)

/-- The lines that declare labels, each with the next one. -/
def neighbours (layout : Layout) : List (Placement × Placement) :=
  layout.declaring.consecutivePairs.filter fun pair => pair.1.line.number ≠ pair.2.line.number

variable {fallback : String → Option Int} {lines : List SourceLine} {p q : Placement}

/-! ## the table of labels -/

theorem Scan.labels_foldl (scan : Scan) (lines : List SourceLine) :
    (lines.foldl (Scan.next fallback) scan).labels =
      ((scan.placements fallback lines).flatMap Placement.declarations).foldl
        (fun table entry => table.insert entry.1 entry.2) scan.labels := by
  induction lines generalizing scan with
  | nil => rfl
  | cons line rest ih =>
      rw [List.foldl_cons, ih, placements, List.flatMap_cons, List.foldl_append, labels_next,
        Placement.declarations, line_placement]
      split
      · rfl
      · rw [List.foldl_map]

/-- What a line declares is among the names that it binds. -/
theorem sublist_names (hp : p ∈ (ofLines fallback lines).placements) :
    (p.declarations.map (·.1)).Sublist p.names := by
  unfold Placement.declarations
  cases plain : p.isEqu with
  | true => exact List.nil_sublist _
  | false =>
      rw [Placement.isEqu, decide_eq_false_iff_not] at plain
      simp [Placement.names, isSome_address hp plain, Function.comp_def]

/-- A line that declares labels is one of the layout, no constant, and has a first and a last
label. -/
theorem of_mem_declaring (h : p ∈ (ofLines fallback lines).declaring) :
    p ∈ (ofLines fallback lines).placements ∧ p.isEqu = false ∧ p.line.labels ≠ [] := by
  obtain ⟨hp, declares⟩ := List.mem_filter.mp ((perm_inOrder _ _).mem_iff.mp h)
  simpa [Placement.declares] using And.intro hp declares

/-- Lines that are numbered in their order declare labels in that order. -/
theorem declaring_of_numbered (numbered : lines.Pairwise (·.number ≤ ·.number)) :
    (ofLines fallback lines).declaring =
      (ofLines fallback lines).placements.filter Placement.declares := by
  refine inOrder_of_pairwise (List.Pairwise.filter _ ?_)
  rw [placements_ofLines]
  rw [← Scan.map_line_placements fallback Scan.start lines, List.pairwise_map] at numbered
  exact numbered.imp Int.ofNat_le.mpr

theorem declaring_of_mem_neighbours (h : (p, q) ∈ (ofLines fallback lines).neighbours) :
    p ∈ (ofLines fallback lines).declaring ∧ q ∈ (ofLines fallback lines).declaring := by
  obtain ⟨hp, hq⟩ := List.of_mem_zip (List.mem_filter.mp h).1
  exact ⟨hp, List.mem_of_mem_tail hq⟩

theorem getLast?_labels {labels : List String} (h : labels ≠ []) :
    labels.getLast? = some (labels.getLastD "") := by
  rw [List.getLastD_eq_getLast?, List.getLast?_eq_some_getLast h, Option.getD_some]

theorem head?_labels {labels : List String} (h : labels ≠ []) :
    labels.head? = some (labels.headD "") := by
  obtain ⟨label, rest, rfl⟩ := List.exists_cons_of_ne_nil h
  rfl

section

variable (once : ((ofLines fallback lines).placements.flatMap Placement.names).Nodup)
include once

theorem bindsOnce : (ofLines fallback lines).BindsOnce :=
  (List.pairwise_flatMap.mp once).2.imp fun apart name hp hq => apart name hp name hq rfl

/-- If no name is bound twice, the labels are listed as the lines declare them. -/
theorem entries_labels : (ofLines fallback lines).labels.entries =
    (ofLines fallback lines).placements.flatMap Placement.declarations := by
  have keys : (((ofLines fallback lines).placements.flatMap Placement.declarations).map
      (·.1)).Nodup := by
    refine once.sublist ?_
    rw [List.map_flatMap]
    exact List.Sublist.flatMap_right _ fun p hp => sublist_names hp
  have built := Table.foldl_insert_of_nodup [] _ keys
  rw [placements_ofLines] at built ⊢
  rw [ofLines, Scan.labels_foldl]
  exact congrArg Table.entries built

/-- As findings are told from them, they come in one block for each line that declares any. -/
theorem map_entries_labels :
    ((ofLines fallback lines).labels.entries.map fun (name, line) => (name, (line : Int))) =
      ((ofLines fallback lines).placements.filter Placement.declares).flatMap
        Placement.labelled := by
  rw [entries_labels once, List.map_flatMap]
  refine flatMap_eq_of_blank fun p => ?_
  unfold Placement.declarations Placement.declares Placement.labelled
  cases p.isEqu with
  | true => rfl
  | false => cases p.line.labels <;> simp

/-- A label tells the line that declares it. -/
theorem eq_of_label (hp : p ∈ (ofLines fallback lines).declaring)
    (hq : q ∈ (ofLines fallback lines).declaring) {name : String} (hn : name ∈ p.line.labels)
    (hm : name ∈ q.line.labels) : p = q := by
  have bound {r : Placement} (hr : r ∈ (ofLines fallback lines).declaring)
      (h : name ∈ r.line.labels) : name ∈ r.names := by
    obtain ⟨placed, plain, -⟩ := of_mem_declaring hr
    rw [Placement.isEqu, decide_eq_false_iff_not] at plain
    rwa [Placement.names, if_pos (isSome_address placed plain)]
  by_contra apart
  have : Std.Symm fun p q : Placement => ∀ name ∈ p.names, name ∉ q.names :=
    ⟨fun p q h name hq hp => h name hp hq⟩
  exact (bindsOnce once).forall (of_mem_declaring hp).1 (of_mem_declaring hq).1 apart name
    (bound hp hn) (bound hq hm)

/-- What is told from the labels of two neighbouring lines. -/
theorem finding?_of_declaring (hp : p ∈ (ofLines fallback lines).declaring)
    (hq : q ∈ (ofLines fallback lines).declaring) :
    Aliasing.finding? (ofLines fallback lines).symbols
        (p.line.labels.getLastD "", (p.line.number : Int))
        (q.line.labels.headD "", (q.line.number : Int)) =
      if p.line.number ≠ q.line.number ∧ p.address = q.address then
        some (AliasFinding.between p q)
      else none := by
  obtain ⟨placedP, plainP, someP⟩ := of_mem_declaring hp
  obtain ⟨placedQ, plainQ, someQ⟩ := of_mem_declaring hq
  have last : p.line.labels.getLastD "" ∈ p.line.labels :=
    List.mem_of_getLast? (getLast?_labels someP)
  have first : q.line.labels.headD "" ∈ q.line.labels := List.mem_of_head? (head?_labels someQ)
  obtain ⟨here, ha, hh⟩ := get?_of_label (bindsOnce once) placedP plainP last
  obtain ⟨next, hb, hn⟩ := get?_of_label (bindsOnce once) placedQ plainQ first
  unfold Aliasing.finding?
  by_cases number : p.line.number = q.line.number
  · simp [number]
  · have names : p.line.labels.getLastD "" ≠ q.line.labels.headD "" := fun same =>
      number (congrArg (·.line.number) (eq_of_label once hp hq last (same ▸ first)))
    have either : ¬ ((p.line.number : Int) = q.line.number ∨
        p.line.labels.getLastD "" = q.line.labels.headD "") := by
      rw [not_or, Int.natCast_inj]
      exact ⟨number, names⟩
    rw [if_neg either, hh, hn, ha, hb]
    by_cases same : here = next
    · simp [same, number, AliasFinding.between, ha]
    · have apart : (next : Int) ≠ here := by omega
      simp [same, apart]

/-- The findings of a layout are those of neighbouring lines at one address. -/
theorem findings_ofLayout : Aliasing.ofLayout (ofLines fallback lines) =
    ((ofLines fallback lines).neighbours.filter fun pair => pair.1.address = pair.2.address).map
      fun pair => AliasFinding.between pair.1 pair.2 := by
  have sorted : Aliasing.byLine (((ofLines fallback lines).placements.filter
      Placement.declares).flatMap Placement.labelled) =
        (ofLines fallback lines).declaring.flatMap Placement.labelled := by
    refine inOrder_flatMap fun p entry he => ?_
    obtain ⟨name, -, rfl⟩ := List.mem_map.mp he
    rfl
  simp only [Aliasing.ofLayout, Aliasing.findings]
  rw [map_entries_labels once, sorted, List.drop_one, filterMap_consecutivePairs_flatMap
    (fun p => (p.line.labels.headD "", p.line.number))
    (fun p => (p.line.labels.getLastD "", p.line.number))]
  case starts =>
    intro p hp
    obtain ⟨back, hb⟩ := List.head?_eq_some_iff.mp (head?_labels (of_mem_declaring hp).2.2)
    exact ⟨back.map (·, (p.line.number : Int)), congrArg (List.map _) hb⟩
  case ends =>
    intro p hp
    obtain ⟨front, hf⟩ := List.getLast?_eq_some_iff.mp (getLast?_labels (of_mem_declaring hp).2.2)
    exact ⟨front.map (·, (p.line.number : Int)), (congrArg (List.map _) hf).trans List.map_append⟩
  case inside =>
    intro p _ x hx y hy
    obtain ⟨name, -, rfl⟩ := List.mem_map.mp hx
    obtain ⟨next, -, rfl⟩ := List.mem_map.mp hy
    exact if_pos (.inl rfl)
  rw [neighbours, List.filter_filter, ← List.filterMap_eq_map, List.filterMap_filter]
  refine List.filterMap_congr fun pair hm => ?_
  obtain ⟨hp, hq⟩ := List.of_mem_zip hm
  rw [finding?_of_declaring once hp (List.mem_of_mem_tail hq)]
  by_cases number : pair.1.line.number = pair.2.line.number <;>
    by_cases address : pair.1.address = pair.2.address <;> simp [number, address]

/-- Findings come in the order of their lines, one for a line at most. -/
theorem pairwise_findings :
    (Aliasing.ofLayout (ofLines fallback lines)).Pairwise fun f g => f.line < g.line := by
  rw [findings_ofLayout once, List.pairwise_map]
  refine List.Pairwise.filter _ ?_
  have sorted := pairwise_inOrder (fun p : Placement => (p.line.number : Int))
    ((ofLines fallback lines).placements.filter Placement.declares)
  have order := le_of_mem_consecutivePairs sorted
  refine ((pairwise_consecutivePairs sorted).filter _).imp_of_mem fun {f} {g} hf hg le => ?_
  obtain ⟨hf, different⟩ := List.mem_filter.mp hf
  have first := order f hf
  rw [decide_eq_true_eq] at different
  show (f.1.line.number : Int) < g.1.line.number
  omega

/-- A finding that names the last label of a line and the first label of the next one is there
exactly if they have the same address. -/
theorem exists_finding_iff (h : (p, q) ∈ (ofLines fallback lines).neighbours) :
    (∃ f ∈ Aliasing.ofLayout (ofLines fallback lines),
      p.line.labels.getLast? = some f.name ∧ q.line.labels.head? = some f.nextName) ↔
      p.address = q.address := by
  obtain ⟨hp, hq⟩ := declaring_of_mem_neighbours h
  rw [findings_ofLayout once]
  constructor
  · rintro ⟨f, hf, last, first⟩
    obtain ⟨⟨p', q'⟩, hm, rfl⟩ := List.mem_map.mp hf
    obtain ⟨hm, same⟩ := List.mem_filter.mp hm
    obtain ⟨hp', hq'⟩ := declaring_of_mem_neighbours hm
    have ep : p = p' := eq_of_label once hp hp' (List.mem_of_getLast? last)
      (List.mem_of_getLast? (getLast?_labels (of_mem_declaring hp').2.2))
    have eq : q = q' := eq_of_label once hq hq' (List.mem_of_head? first)
      (List.mem_of_head? (head?_labels (of_mem_declaring hq').2.2))
    rw [ep, eq]
    exact of_decide_eq_true same
  · intro same
    refine ⟨AliasFinding.between p q, List.mem_map.mpr ⟨(p, q), ?_, rfl⟩,
      getLast?_labels (of_mem_declaring hp).2.2, head?_labels (of_mem_declaring hq).2.2⟩
    exact List.mem_filter.mpr ⟨h, decide_eq_true same⟩

end

/-! ## lines one behind the other -/

/-- Two lines, no origin among them or between them, have the same address exactly if nothing is
reserved from the first up to the second, as long as that is less than all of memory. -/
theorem address_eq_iff {front mid back : List Placement}
    (placed : (ofLines fallback lines).placements = front ++ (p :: mid ++ [q]) ++ back)
    (plain : p.isEqu = false ∧ q.isEqu = false)
    (still : ∀ r ∈ p :: mid ++ [q], r.isOrg = false)
    (short : ((p :: mid).map (·.size)).sum < 65536) :
    p.address = q.address ↔ ((p :: mid).map (·.size)).sum = 0 := by
  rw [placements_ofLines] at placed
  obtain ⟨scan, found, hf⟩ := Scan.exists_infix placed
  have row : Placement.Row scan.counter (p :: mid ++ [q]) := by
    rw [hf] at still ⊢
    exact Scan.row_placements scan found still
  have first := row.1.resolve_left (by simp [plain])
  have second := row.append.1.resolve_left (by simp [plain])
  rw [first, second, Option.some.injEq, word, word]
  omega

/-- In lines that bind every name once, the findings come in line order, one for each two
neighbouring lines with labels at one address, of which it names the last label of the first and
the first label of the second.  If there is no origin at these lines or between them and less than
all of memory is reserved from the first up to the second, there is one exactly if nothing is
reserved there. -/
theorem findings_neighbours
    (once : ((ofLines fallback lines).placements.flatMap Placement.names).Nodup) :
    Aliasing.ofLayout (ofLines fallback lines) =
      ((ofLines fallback lines).neighbours.filter fun pair =>
        pair.1.address = pair.2.address).map (fun pair => AliasFinding.between pair.1 pair.2) ∧
    ((Aliasing.ofLayout (ofLines fallback lines)).Pairwise fun f g => f.line < g.line) ∧
    ∀ front p mid q back,
      (ofLines fallback lines).placements = front ++ (p :: mid ++ [q]) ++ back →
      (p, q) ∈ (ofLines fallback lines).neighbours →
      (∀ r ∈ p :: mid ++ [q], r.isOrg = false) → ((p :: mid).map (·.size)).sum < 65536 →
      ((∃ f ∈ Aliasing.ofLayout (ofLines fallback lines),
          p.line.labels.getLast? = some f.name ∧ q.line.labels.head? = some f.nextName) ↔
        ((p :: mid).map (·.size)).sum = 0) := by
  refine ⟨findings_ofLayout once, pairwise_findings once, ?_⟩
  intro front p mid q back placed next still short
  obtain ⟨hp, hq⟩ := declaring_of_mem_neighbours next
  have plain := And.intro (of_mem_declaring hp).2.1 (of_mem_declaring hq).2.1
  rw [exists_finding_iff once next, address_eq_iff placed plain still short]

/-- Labels with no byte between them, and one with a byte behind it. -/
def emptyLines : List SourceLine :=
  [⟨1, "FIRST: SECOND:", ["FIRST", "SECOND"], none, ""⟩,
   ⟨2, "SIZE EQU 4", ["SIZE"], some (.directive .equ), "4"⟩,
   ⟨3, "  MACRO 1", [], some (.unknown "MACRO"), "1"⟩,
   ⟨4, "TABLE_DATA: DS SIZE-4", ["TABLE_DATA"], some (.directive .ds), "SIZE-4"⟩,
   ⟨5, "LOOP: NOP", ["LOOP"], some (.mnemonic .nop), ""⟩,
   ⟨6, "DONE:", ["DONE"], none, ""⟩]

theorem findings_neighbours_empty :
    let layout := ofLines (fun _ => none) emptyLines
    Aliasing.ofLayout layout =
      [⟨.fallthrough, "SECOND", "TABLE_DATA", 1, 0⟩, ⟨.emptyData, "TABLE_DATA", "LOOP", 4, 0⟩] ∧
    ¬ ∃ f ∈ Aliasing.ofLayout layout, f.name = "LOOP" ∧ f.nextName = "DONE" := by
  have once : ((ofLines (fun _ => none) emptyLines).placements.flatMap Placement.names).Nodup := by
    decide +kernel
  have declaring : (ofLines (fun _ => none) emptyLines).declaring = _ :=
    declaring_of_numbered (by decide)
  obtain ⟨told, -, bytes⟩ := findings_neighbours once
  refine ⟨?_, ?_⟩
  · rw [told, neighbours, declaring]
    decide +kernel
  · let loop : Placement := ⟨⟨5, "LOOP: NOP", ["LOOP"], some (.mnemonic .nop), ""⟩, some 0, 1⟩
    let done : Placement := ⟨⟨6, "DONE:", ["DONE"], none, ""⟩, some 1, 0⟩
    have next : (loop, done) ∈ (ofLines (fun _ => none) emptyLines).neighbours := by
      rw [neighbours, declaring]
      decide +kernel
    have empty := bytes ((ofLines (fun _ => none) emptyLines).placements.take 4) loop [] done []
      (by decide +kernel) next (by decide) (by decide)
    rintro ⟨f, hf, name, nextName⟩
    exact absurd (empty.mp ⟨f, hf, by rw [name]; rfl, by rw [nextName]; rfl⟩) (by decide)

end Layout

end Z80Workbench
