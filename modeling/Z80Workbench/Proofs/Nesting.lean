import Z80Workbench.Proofs.Expansion
import Z80Workbench.Proofs.Source.LabelLine

/-!
# Z80Workbench.Proofs.Nesting

Blocks within blocks.  Well nested lines are those of a nest: lines and blocks in a row, where the
body of a block is a nest again.  Lines can be read as a nest, and then in one way only, exactly if
each block is closed and nothing else is.  A nest has a direct expansion, in which a block stands
for the copies of the expansion of its body.  Expansion proper goes round by round instead, each
round copying the bodies of the outermost blocks as they stand; after as many rounds as blocks are
nested into each other, both come to the same lines.
-/

namespace Z80Workbench

open Text Source

/-- Lines and blocks in a row. -/
inductive Nest where
  | done
  | line (line : OriginLine) (rest : Nest)
  | block (opening : OriginLine) (body : Nest) (closing : OriginLine) (rest : Nest)

namespace Repeat

/-- The labels of a marker. -/
def Marker.labels : Marker → List String
  | opening labels _ => labels
  | closing labels => labels
  | plain => []

/-- How often the body of a block is copied; a count without a value stands for one copy. -/
def Marker.copies (settings : Settings) (constants : Symbols) : Marker → Nat
  | opening _ count =>
    match (Expr.ofString count).value? { symbols := constants } with
    | some n => min n settings.repeatCount
    | none => 1
  | _ => 0

/-- The labels of a marker are labels. -/
theorem isLabel_of_mem_labels {text label : String} (h : label ∈ (marker text).labels) :
    IsLabel label.toList := by
  have held {labels : List String}
      (hm : (∃ count, marker text = .opening labels count) ∨ marker text = .closing labels)
      (hl : label ∈ labels) : IsLabel label.toList := by
    obtain ⟨line, hp, -, rfl⟩ := exists_of_marker hm
    exact isLabel_of_parseLine hp hl
  cases hm : marker text with
  | opening labels count => exact held (.inl ⟨count, hm⟩) (by simpa [Marker.labels, hm] using h)
  | closing labels => exact held (.inr hm) (by simpa [Marker.labels, hm] using h)
  | plain => simp [Marker.labels, hm] at h

/-- A line of labels is no marker. -/
theorem marker_labelLine {labels : List String} (h : ∀ label ∈ labels, IsLabel label.toList) :
    marker (labelLine labels) = .plain := by
  unfold marker
  split
  case h_1 => rfl
  case h_2 line hp => rw [directive?_of_labelLine h hp]

end Repeat

/-- The marker of the line. -/
@[irreducible] def OriginLine.marker (line : OriginLine) : Repeat.Marker := Repeat.marker line.text

/-- The line starts a block. -/
def OriginLine.Opens (line : OriginLine) : Prop :=
  ∃ labels count, line.marker = .opening labels count

/-- The line ends a block. -/
def OriginLine.Closes (line : OriginLine) : Prop :=
  ∃ labels, line.marker = .closing labels

/-- The line that keeps the labels of the line, if it has any. -/
def OriginLine.labelLines (line : OriginLine) : List OriginLine :=
  Repeat.keptLabels line.marker.labels line.origin

/-- The error of a line that opens a block and has no value for its count. -/
def OriginLine.countErrors (constants : Symbols) (line : OriginLine) : List Diagnostic :=
  match line.marker with
  | .opening _ count =>
    match (Expr.ofString count).value? { symbols := constants } with
    | some _ => []
    | none => [{ cause := .repeatCount count, location := Repeat.Round.place line.origin }]
  | _ => []

namespace Nest

open Repeat

/-! ## nests -/

/-- The lines of a nest. -/
def lines : Nest → List OriginLine
  | done => []
  | line l rest => l :: rest.lines
  | block opening body closing rest => opening :: body.lines ++ closing :: rest.lines

/-- The ends of the blocks are marked, and no other line is. -/
def Marked : Nest → Prop
  | done => True
  | line l rest => l.marker = .plain ∧ rest.Marked
  | block opening body closing rest =>
    opening.Opens ∧ body.Marked ∧ closing.Closes ∧ rest.Marked

/-- The lines of the one and then of the other. -/
def append : Nest → Nest → Nest
  | done, other => other
  | line l rest, other => line l (rest.append other)
  | block opening body closing rest, other => block opening body closing (rest.append other)

/-- The lines of a nest as often as told. -/
def replicate (nest : Nest) : Nat → Nest
  | 0 => done
  | n + 1 => nest.append (nest.replicate n)

/-- A nest of lines without blocks. -/
def ofLines : List OriginLine → Nest
  | [] => done
  | l :: rest => line l (ofLines rest)

section Meaning

variable (settings : Settings) (constants : Symbols)

/-- The expansion of a nest: for a block, the labels at its start, the copies of the expansion of
its body, and the labels at its end. -/
def expanded : Nest → List OriginLine
  | done => []
  | line l rest => l :: rest.expanded
  | block opening body closing rest =>
    opening.labelLines ++
      (List.replicate (opening.marker.copies settings constants) body.expanded).flatten ++
        closing.labelLines ++ rest.expanded

/-- How deep blocks are nested into each other.  What a block holds that is not copied at all does
not count. -/
def liveDepth : Nest → Nat
  | done => 0
  | line _ rest => rest.liveDepth
  | block opening body _ rest =>
    max (1 + if opening.marker.copies settings constants = 0 then 0 else body.liveDepth)
      rest.liveDepth

/-- The nest after a round: the body of each outermost block is copied as it stands. -/
def unrolled : Nest → Nest
  | done => done
  | line l rest => line l rest.unrolled
  | block opening body closing rest =>
    (ofLines opening.labelLines).append <|
      (body.replicate (opening.marker.copies settings constants)).append <|
        (ofLines closing.labelLines).append rest.unrolled

/-- The errors of the outermost blocks, in order. -/
def countErrors : Nest → List Diagnostic
  | done => []
  | line _ rest => rest.countErrors
  | block opening _ _ rest => opening.countErrors constants ++ rest.countErrors

end Meaning

/-! ## putting nests together -/

variable {settings : Settings} {constants : Symbols} {nest other : Nest}

@[simp] theorem lines_append : (nest.append other).lines = nest.lines ++ other.lines := by
  induction nest with
  | done => rfl
  | line l rest ih => simp [append, lines, ih]
  | block opening body closing rest _ ih => simp [append, lines, ih]

@[simp] theorem lines_replicate {n : Nat} :
    (nest.replicate n).lines = (List.replicate n nest.lines).flatten := by
  induction n with
  | zero => rfl
  | succ n ih => simp [replicate, List.replicate_succ, ih]

@[simp] theorem lines_ofLines (plain : List OriginLine) : (ofLines plain).lines = plain := by
  induction plain with
  | nil => rfl
  | cons l rest ih => simp [ofLines, lines, ih]

@[simp] theorem expanded_append :
    (nest.append other).expanded settings constants =
      nest.expanded settings constants ++ other.expanded settings constants := by
  induction nest with
  | done => rfl
  | line l rest ih => simp [append, expanded, ih]
  | block opening body closing rest _ ih => simp [append, expanded, ih]

@[simp] theorem expanded_replicate {n : Nat} :
    (nest.replicate n).expanded settings constants =
      (List.replicate n (nest.expanded settings constants)).flatten := by
  induction n with
  | zero => rfl
  | succ n ih => simp [replicate, List.replicate_succ, ih]

@[simp] theorem expanded_ofLines (plain : List OriginLine) :
    (ofLines plain).expanded settings constants = plain := by
  induction plain with
  | nil => rfl
  | cons l rest ih => simp [ofLines, expanded, ih]

@[simp] theorem liveDepth_append :
    (nest.append other).liveDepth settings constants =
      max (nest.liveDepth settings constants) (other.liveDepth settings constants) := by
  induction nest with
  | done => simp [append, liveDepth]
  | line l rest ih => simp [append, liveDepth, ih]
  | block opening body closing rest _ ih => simp [append, liveDepth, ih, Nat.max_assoc]

@[simp] theorem liveDepth_replicate {n : Nat} :
    (nest.replicate n).liveDepth settings constants =
      if n = 0 then 0 else nest.liveDepth settings constants := by
  induction n with
  | zero => rfl
  | succ n ih =>
      rw [replicate, liveDepth_append, ih]
      split <;> simp

@[simp] theorem liveDepth_ofLines (plain : List OriginLine) :
    (ofLines plain).liveDepth settings constants = 0 := by
  induction plain with
  | nil => rfl
  | cons l rest ih => simp [ofLines, liveDepth, ih]

/-- Every block counts as a level, even if it is not copied. -/
theorem liveDepth_pos {opening closing : OriginLine} {body rest : Nest} :
    0 < (block opening body closing rest).liveDepth settings constants := by
  simp only [liveDepth]
  omega

theorem Marked.append (h : nest.Marked) (ho : other.Marked) : (nest.append other).Marked := by
  induction nest with
  | done => exact ho
  | line l rest ih => exact ⟨h.1, ih h.2⟩
  | block opening body closing rest _ ih => exact ⟨h.1, h.2.1, h.2.2.1, ih h.2.2.2⟩

theorem Marked.replicate (h : nest.Marked) (n : Nat) : (nest.replicate n).Marked := by
  induction n with
  | zero => trivial
  | succ n ih => exact h.append ih

theorem marked_ofLines {plain : List OriginLine} (h : ∀ l ∈ plain, l.marker = .plain) :
    (ofLines plain).Marked := by
  induction plain with
  | nil => trivial
  | cons l rest ih =>
      exact ⟨h l List.mem_cons_self, ih fun other ho => h other (List.mem_cons_of_mem l ho)⟩

/-! ## well nested lines -/

/-- The nest has the given lines, and its blocks are those that they mark. -/
structure Reads (nest : Nest) (lines : List OriginLine) : Prop where
  lines : nest.lines = lines
  marked : nest.Marked

/-- With so many blocks open at the start, no closing line is met while none is open, and none is
left open at the end. -/
def Balanced : Nat → List OriginLine → Prop
  | depth, [] => depth = 0
  | depth, l :: rest =>
    match l.marker with
    | .opening _ _ => Balanced (depth + 1) rest
    | .closing _ => ∃ outer, depth = outer + 1 ∧ Balanced outer rest
    | .plain => Balanced depth rest

/-- The lines of a nest leave as many blocks open as there were. -/
theorem balanced_append {depth : Nat} {rest : List OriginLine} (h : nest.Marked) :
    Balanced depth (nest.lines ++ rest) ↔ Balanced depth rest := by
  induction nest generalizing depth rest with
  | done => rfl
  | line l more ih => simp [lines, Balanced, h.1, ih h.2]
  | block opening body closing more ihb ih =>
      obtain ⟨⟨labels, count, ho⟩, hb, ⟨last, hc⟩, hr⟩ := h
      simp [lines, Balanced, ho, hc, ihb hb, ih hr]

/-- Balanced lines are a nest up to the line that closes the innermost block open at the start. -/
theorem exists_of_balanced {depth : Nat} {lines : List OriginLine} (h : Balanced depth lines) :
    ∃ (nest : Nest) (rest : List OriginLine), nest.Marked ∧ lines = nest.lines ++ rest ∧
      ((depth = 0 ∧ rest = []) ∨ ∃ closing tail outer, rest = closing :: tail ∧ closing.Closes ∧
        depth = outer + 1 ∧ Balanced outer tail) := by
  induction hn : lines.length using Nat.strong_induction_on generalizing depth lines with
  | h n ih =>
      cases lines with
      | nil => exact ⟨done, [], trivial, rfl, .inl ⟨h, rfl⟩⟩
      | cons l more =>
          rw [List.length_cons] at hn
          rw [Balanced] at h
          cases hm : l.marker with
          | plain =>
              rw [hm] at h
              obtain ⟨nest, rest, marked, rfl, tail⟩ := ih more.length (by omega) h rfl
              exact ⟨line l nest, rest, ⟨hm, marked⟩, rfl, tail⟩
          | closing labels =>
              rw [hm] at h
              obtain ⟨outer, hd, ho⟩ := h
              refine ⟨done, l :: more, trivial, rfl, .inr ?_⟩
              exact ⟨l, more, outer, rfl, ⟨labels, hm⟩, hd, ho⟩
          | opening labels count =>
              rw [hm] at h
              -- the body ends at the line that closes this block; the rest is read on its own
              obtain ⟨body, after, hb, rfl, tail⟩ := ih more.length (by omega) h rfl
              obtain ⟨hd, -⟩ | ⟨closing, behind, outer, rfl, hc, hd, ho⟩ := tail
              · cases hd
              · cases hd
                rw [List.length_append, List.length_cons] at hn
                obtain ⟨nest, rest, marked, rfl, tail⟩ := ih behind.length (by omega) ho rfl
                have marked : (block l body closing nest).Marked :=
                  ⟨⟨labels, count, hm⟩, hb, hc, marked⟩
                exact ⟨_, rest, marked, by simp [Nest.lines], tail⟩

/-- Where only the end of a block may follow, no line of a nest does. -/
theorem eq_done_of_closes {rest more : List OriginLine} (h : nest.Marked)
    (hr : ∀ l ∈ rest.head?, l.Closes) (he : rest = nest.lines ++ more) : nest = done := by
  cases nest with
  | done => rfl
  | line l nest =>
      obtain ⟨labels, hc⟩ := hr l (by rw [he]; rfl)
      cases h.1.symm.trans hc
  | block opening body closing nest =>
      obtain ⟨labels, hc⟩ := hr opening (by rw [he]; rfl)
      obtain ⟨_, _, ho⟩ := h.1
      cases ho.symm.trans hc

/-- Lines are read in one way only, where only the end of a block may follow. -/
theorem eq_of_lines_append {rest more : List OriginLine} (h : nest.Marked) (ho : other.Marked)
    (hr : ∀ l ∈ rest.head?, l.Closes) (hm : ∀ l ∈ more.head?, l.Closes)
    (he : nest.lines ++ rest = other.lines ++ more) : nest = other ∧ rest = more := by
  induction nest generalizing other rest more with
  | done =>
      cases eq_done_of_closes ho hr he
      exact ⟨rfl, he⟩
  | line l nest ih =>
      cases other with
      | done => cases eq_done_of_closes h hm he.symm
      | line l' other =>
          obtain ⟨rfl, tails⟩ := List.cons.inj he
          obtain ⟨rfl, rfl⟩ := ih h.2 ho.2 hr hm tails
          exact ⟨rfl, rfl⟩
      | block opening body closing other =>
          obtain ⟨rfl, -⟩ := List.cons.inj he
          obtain ⟨⟨_, _, hb⟩, -⟩ := ho
          cases h.1.symm.trans hb
  | block opening body closing nest ihb ih =>
      cases other with
      | done => cases eq_done_of_closes h hm he.symm
      | line l other =>
          obtain ⟨rfl, -⟩ := List.cons.inj he
          obtain ⟨⟨_, _, hb⟩, -⟩ := h
          cases ho.1.symm.trans hb
      | block opening' body' closing' other =>
          obtain ⟨-, hb, hc, hn⟩ := h
          obtain ⟨-, hb', hc', ho⟩ := ho
          simp only [lines, List.cons_append, List.append_assoc, List.cons.injEq] at he
          obtain ⟨rfl, bodies⟩ := he
          obtain ⟨rfl, ends⟩ := ihb hb hb' (by simpa using hc) (by simpa using hc') bodies
          obtain ⟨rfl, tails⟩ := List.cons.inj ends
          obtain ⟨rfl, rfl⟩ := ih hn ho hr hm tails
          exact ⟨rfl, rfl⟩

/-- Lines are balanced if and only if a nest reads them, and then it is the only one. -/
theorem balanced_iff_existsUnique {lines : List OriginLine} :
    Balanced 0 lines ↔ ∃! nest : Nest, nest.Reads lines := by
  constructor
  · intro h
    obtain ⟨nest, rest, marked, hl, ⟨-, rfl⟩ | ⟨_, _, _, -, -, hd, -⟩⟩ := exists_of_balanced h
    · rw [List.append_nil] at hl
      refine ⟨nest, ⟨hl.symm, marked⟩, fun other ho => ?_⟩
      have same : other.lines ++ [] = nest.lines ++ [] := by simp [ho.lines, hl]
      have bare : ∀ l ∈ ([] : List OriginLine).head?, l.Closes := nofun
      exact (eq_of_lines_append ho.marked marked bare bare same).1
    · cases hd
  · rintro ⟨nest, hn, -⟩
    rw [← hn.lines, ← List.append_nil nest.lines, balanced_append hn.marked]
    rfl

/-! ## one round, seen on nests -/

/-- The line that keeps the labels at an end of a block is read again as a line without a marker. -/
theorem marker_labelLines (l : OriginLine) : ∀ kept ∈ l.labelLines, kept.marker = .plain := by
  intro kept hk
  unfold OriginLine.labelLines keptLabels at hk
  split at hk
  · cases hk
  · rw [List.mem_singleton.mp hk, OriginLine.marker]
    refine marker_labelLine fun label hl => ?_
    rw [OriginLine.marker] at hl
    exact isLabel_of_mem_labels hl

/-- What a round leaves is well nested. -/
theorem Marked.unrolled (h : nest.Marked) : (nest.unrolled settings constants).Marked := by
  induction nest with
  | done => trivial
  | line l rest ih => exact ⟨h.1, ih h.2⟩
  | block opening body closing rest _ ih =>
      obtain ⟨-, hb, -, hr⟩ := h
      exact (marked_ofLines (marker_labelLines opening)).append <|
        (hb.replicate _).append <|
          (marked_ofLines (marker_labelLines closing)).append (ih hr)

/-- A round does not change the expansion. -/
theorem expanded_unrolled :
    (nest.unrolled settings constants).expanded settings constants =
      nest.expanded settings constants := by
  induction nest with
  | done => rfl
  | line l rest ih => simp [unrolled, expanded, ih]
  | block opening body closing rest _ ih => simp [unrolled, expanded, ih]

/-- A round takes off one level. -/
theorem liveDepth_unrolled :
    (nest.unrolled settings constants).liveDepth settings constants =
      nest.liveDepth settings constants - 1 := by
  induction nest with
  | done => rfl
  | line l rest ih => simp [unrolled, liveDepth, ih]
  | block opening body closing rest _ ih =>
      simp [unrolled, liveDepth, ih]
      omega

/-- The errors of a round are about counts without a value. -/
theorem repeatCount_of_mem_countErrors (nest : Nest) :
    ∀ error ∈ nest.countErrors constants, ∃ count, error.cause = .repeatCount count := by
  induction nest with
  | done => simp [countErrors]
  | line _ _ ih => exact ih
  | block opening _ _ _ _ ih =>
      refine List.forall_mem_append.mpr ⟨fun error he => ?_, ih⟩
      unfold OriginLine.countErrors at he
      split at he
      case h_1 labels count _ =>
          split at he
          · cases he
          · rw [List.mem_singleton.mp he]
            exact ⟨count, rfl⟩
      case h_2 => cases he

/-- A nest without blocks is its own expansion. -/
theorem expanded_of_flat (h : nest.liveDepth settings constants = 0) :
    nest.expanded settings constants = nest.lines := by
  induction nest with
  | done => rfl
  | line l rest ih => rw [expanded, lines, ih h]
  | block opening body closing rest =>
      exact absurd h (Nat.ne_of_gt liveDepth_pos)

/-- No line of an expansion is a marker. -/
theorem marker_expanded (h : nest.Marked) :
    ∀ l ∈ nest.expanded settings constants, l.marker = .plain := by
  induction nest with
  | done => exact nofun
  | line l rest ih => exact List.forall_mem_cons.mpr ⟨h.1, ih h.2⟩
  | block opening body closing rest ihb ih =>
      obtain ⟨-, hb, -, hr⟩ := h
      simp only [expanded, List.forall_mem_append]
      refine ⟨⟨⟨marker_labelLines opening, ?_⟩, marker_labelLines closing⟩, ih hr⟩
      intro l hl
      obtain ⟨copy, hc, hm⟩ := List.mem_flatten.mp hl
      rw [List.eq_of_mem_replicate hc] at hm
      exact ihb hb l hm

end Nest

end Z80Workbench
