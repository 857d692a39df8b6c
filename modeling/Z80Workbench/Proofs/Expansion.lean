import Z80Workbench.Proofs.Source.Labels
import Z80Workbench.Proofs.Text.Lines
import Z80Workbench.Repeat

/-!
# Z80Workbench.Proofs.Expansion

Expansion writes whole lines.  A line of the expanded source is one of the source, or holds the
labels of one, so that what holds of the lines of the source and is inherited by label lines holds
throughout.  No line end gets into a line this way, and the expanded text is split into the very
lines that it was joined from.
-/

namespace Z80Workbench

open Text

/-- The line holds no line end. -/
def OriginLine.Unbroken (line : OriginLine) : Prop :=
  ∀ c ∈ line.text.toList, isLineBreak c = false

/-- The line starts or ends a block. -/
def SourceLine.MarksBlock (line : SourceLine) : Prop :=
  line.directive? ∈ [some .repeatBegin, some .reptBegin, some .repeatEnd]

instance (line : SourceLine) : Decidable line.MarksBlock :=
  inferInstanceAs (Decidable (line.directive? ∈ _))

/-- The number of a line has no part in what else it holds. -/
theorem Source.parseLine?_eq_map (number : Nat) (text : String) :
    parseLine? number text = (parseLine? 1 text).map fun line => { line with number } := by
  unfold parseLine?
  split <;> rfl

namespace Repeat

/-- The labels of an unbroken line stay on an unbroken line. -/
theorem unbroken_labelLine {labels : List String}
    (h : ∀ label ∈ labels, ∀ c ∈ label.toList, isLineBreak c = false) :
    ∀ c ∈ (labelLine labels).toList, isLineBreak c = false := by
  induction labels with
  | nil => simp [labelLine]
  | cons label rest ih =>
      have first : ∀ c ∈ (label ++ ":").toList, isLineBreak c = false := by
        intro c hc
        rw [String.toList_append, List.mem_append] at hc
        cases hc with
        | inl hl => exact h label List.mem_cons_self c hl
        | inr hcolon =>
            rw [List.mem_singleton.mp hcolon]
            rfl
      have ih := ih fun other ho => h other (List.mem_cons_of_mem label ho)
      cases rest with
      | nil => simpa [labelLine] using first
      | cons next more =>
          intro c hc
          rw [labelLine, List.map_cons, List.map_cons, String.intercalate_cons_cons] at hc
          rw [labelLine, List.map_cons] at ih
          simp only [String.toList_append, List.mem_append] at hc ih first
          rcases hc with (hl | hblank) | hr
          · exact first c hl
          · rw [List.mem_singleton.mp hblank]
            rfl
          · exact ih c hr

/-- The labels of a marker are those of its line. -/
theorem exists_of_marker {text : String} {labels : List String}
    (hm : (∃ count, marker text = .opening labels count) ∨ marker text = .closing labels) :
    ∃ line, Source.parseLine? 1 text = some line ∧ line.MarksBlock ∧ line.labels = labels := by
  unfold marker at hm
  cases hp : Source.parseLine? 1 text with
  | none => simp [hp] at hm
  | some line =>
      refine ⟨line, rfl, ?_⟩
      rw [hp] at hm
      dsimp only at hm
      split at hm <;> simp_all [SourceLine.MarksBlock]

/-- A text is no marker if and only if its line, whatever its number, marks no end of a block. -/
theorem marker_eq_plain_iff {text : String} :
    marker text = .plain ↔
      ∀ number line, Source.parseLine? number text = some line → ¬line.MarksBlock := by
  unfold marker
  constructor
  · intro plain number line hp marks
    rw [Source.parseLine?_eq_map] at hp
    obtain ⟨first, hf, rfl⟩ := Option.map_eq_some_iff.mp hp
    rw [hf] at plain
    dsimp only at plain
    split at plain <;> simp_all [SourceLine.MarksBlock, SourceLine.directive?]
  · intro none
    split
    case h_1 => rfl
    case h_2 line hp =>
        have plain := none 1 line hp
        split <;> simp_all [SourceLine.MarksBlock]

/-- What holds of a line that marks an end of a block holds of the line that keeps its labels. -/
def Inherited (P : OriginLine → Prop) : Prop :=
  ∀ line labels, P line →
    ((∃ count, marker line.text = .opening labels count) ∨ marker line.text = .closing labels) →
      ∀ kept ∈ keptLabels labels line.origin, P kept

/-- The line that keeps the labels of an unbroken marker is unbroken. -/
theorem inherited_unbroken : Inherited OriginLine.Unbroken := by
  intro line labels h hm kept hk
  have held : ∀ label ∈ labels, ∀ c ∈ label.toList, isLineBreak c = false := by
    obtain ⟨found, hp, -, rfl⟩ := exists_of_marker hm
    intro label hl
    obtain ⟨raw, rfl, hraw⟩ := Source.exists_of_mem_labels hp hl
    rw [String.toList_ofList]
    exact not_isLineBreak_upper fun c hc => h c (hraw c hc)
  unfold keptLabels at hk
  split at hk
  · exact absurd hk List.not_mem_nil
  · rw [List.mem_singleton.mp hk]
    exact unbroken_labelLine held

namespace Round

/-- The property holds of all lines of the round. -/
structure All (P : OriginLine → Prop) (round : Round) : Prop where
  output : ∀ line ∈ round.output, P line
  block : ∀ block, round.block = some block → ∀ line ∈ block.body, P line

variable {P : OriginLine → Prop} {round : Round} {settings : Settings} {constants : Symbols}

theorem All.copyBlock (h : round.All P) {block : OpenBlock} (hb : round.block = some block) :
    (round.copyBlock block).All P := by
  refine ⟨fun line hl => ?_, fun _ hn => nomatch hn⟩
  cases List.mem_append.mp hl with
  | inl hc =>
      obtain ⟨body, hr, hm⟩ := List.mem_flatten.mp hc
      rw [List.eq_of_mem_replicate hr] at hm
      exact h.block block hb line hm
  | inr ho => exact h.output line ho

/-- A property that label lines inherit is kept from line to line. -/
theorem All.next (h : round.All P) (hP : Inherited P) {line : OriginLine} (hl : P line) :
    (round.next settings constants line).All P := by
  unfold Round.next
  split
  case h_1 labels count hb hm =>
      have kept := hP line labels hl (.inl ⟨count, hm⟩)
      unfold openBlock
      dsimp only
      split
      · refine ⟨List.forall_mem_append.mpr ⟨kept, h.output⟩, fun block he => ?_⟩
        cases he
        simp
      · refine ⟨List.forall_mem_append.mpr ⟨kept, h.output⟩, fun block he => ?_⟩
        cases he
        simp
  case h_2 labels hb hm =>
      have kept := hP line labels hl (.inr hm)
      exact ⟨List.forall_mem_append.mpr ⟨kept, h.output⟩, fun block he => h.block block he⟩
  case h_3 hb hm =>
      exact ⟨List.forall_mem_cons.mpr ⟨hl, h.output⟩, fun block he => h.block block he⟩
  case h_4 block labels count hb hm =>
      refine ⟨h.output, fun other he => ?_⟩
      cases he
      exact List.forall_mem_cons.mpr ⟨hl, h.block block hb⟩
  case h_5 block labels hb hm =>
      have kept := hP line labels hl (.inr hm)
      split
      · have copied := h.copyBlock hb
        exact ⟨List.forall_mem_append.mpr ⟨kept, copied.output⟩,
          fun other he => copied.block other he⟩
      · refine ⟨h.output, fun other he => ?_⟩
        cases he
        exact List.forall_mem_cons.mpr ⟨hl, h.block block hb⟩
  case h_6 block hb hm =>
      refine ⟨h.output, fun other he => ?_⟩
      cases he
      exact List.forall_mem_cons.mpr ⟨hl, h.block block hb⟩

theorem All.finish (h : round.All P) : round.finish.All P := by
  unfold Round.finish
  split
  case h_1 => exact h
  case h_2 block hb =>
      have copied := h.copyBlock hb
      exact ⟨copied.output, fun other he => copied.block other he⟩

theorem All.foldl (h : round.All P) (hP : Inherited P) {lines : List OriginLine}
    (hl : ∀ line ∈ lines, P line) : (lines.foldl (Round.next settings constants) round).All P := by
  induction lines generalizing round with
  | nil => exact h
  | cons line rest ih =>
      exact ih (h.next hP (hl line List.mem_cons_self)) fun other ho =>
        hl other (List.mem_cons_of_mem line ho)

end Round

/-- Rounds of expansion keep what label lines inherit. -/
theorem forall_mem_expandRounds {P : OriginLine → Prop} (hP : Inherited P) {settings : Settings}
    {constants : Symbols} {fuel : Nat} {e : Expansion} (h : ∀ line ∈ e.lines, P line) :
    ∀ line ∈ (expandRounds settings constants fuel e).lines, P line := by
  induction fuel generalizing e with
  | zero => exact h
  | succ fuel ih =>
      rw [expandRounds]
      split
      · refine ih fun line hl => ?_
        have start : Round.start.All P :=
          ⟨fun _ ho => absurd ho List.not_mem_nil, fun _ hb => nomatch hb⟩
        exact (start.foldl hP h).finish.output line (List.mem_reverse.mp hl)
      · exact h

/-- The lines of an expansion are unbroken. -/
theorem unbroken_expand (settings : Settings) (source : String) :
    ∀ line ∈ (expand settings source).lines, line.Unbroken := by
  refine forall_mem_expandRounds inherited_unbroken fun line hl => ?_
  obtain ⟨found, hf, rfl⟩ := List.mem_map.mp hl
  obtain ⟨text, ht, he⟩ := List.mem_map.mp (List.fst_mem_of_mem_zipIdx hf)
  intro c hc
  have hc : c ∈ found.1.toList := hc
  rw [← he, String.toList_ofList] at hc
  exact not_isLineBreak_of_mem_splitLines ht c hc

end Repeat

end Z80Workbench
