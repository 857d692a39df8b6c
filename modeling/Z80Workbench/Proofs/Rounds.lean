import Z80Workbench.Proofs.Nesting

/-!
# Z80Workbench.Proofs.Rounds

Rounds carry out the expansion of nests.  Within an open block a nest only adds its lines to the
body; outside, it leaves the lines of its unrolling.  A round hence takes a nest to its unrolling,
and rounds go on until no block is left, one for each level.
-/

namespace Z80Workbench

open Text Source

namespace Repeat

section Rounds

variable {settings : Settings} {constants : Symbols}

/-! ## one line -/

namespace Round

variable {output : List OriginLine} {changed : Bool} {errors : List Diagnostic} {l : OriginLine}

/-- A marker leaves one label line at most. -/
theorem reverse_labelLines (l : OriginLine) : l.labelLines.reverse = l.labelLines := by
  unfold OriginLine.labelLines keptLabels
  split <;> rfl

/-- A marker reports one error at most. -/
theorem reverse_countErrors (l : OriginLine) :
    (l.countErrors constants).reverse = l.countErrors constants := by
  unfold OriginLine.countErrors
  split
  · split <;> rfl
  · rfl

theorem next_plain (h : l.marker = .plain) :
    next settings constants ⟨output, none, changed, errors⟩ l =
      ⟨l :: output, none, changed, errors⟩ := by
  rw [OriginLine.marker] at h
  simp only [next, h]

/-- A block starts with the labels of its opening. -/
theorem next_opening (h : l.Opens) :
    next settings constants ⟨output, none, changed, errors⟩ l =
      ⟨l.labelLines ++ output, some ⟨l.origin, l.marker.copies settings constants, 0, []⟩, true,
        l.countErrors constants ++ errors⟩ := by
  obtain ⟨labels, count, h⟩ := h
  rw [OriginLine.labelLines, OriginLine.countErrors, h]
  rw [OriginLine.marker] at h
  simp only [next, h, openBlock, Marker.labels, Marker.copies]
  cases (Expr.ofString count).value? { symbols := constants } <;> rfl

/-- A block ends with its copies and the labels of its closing. -/
theorem next_closing (h : l.Closes) {origin copies : Nat}
    {body : List OriginLine} :
    next settings constants ⟨output, some ⟨origin, copies, 0, body⟩, changed, errors⟩ l =
      ⟨l.labelLines ++ ((List.replicate copies body).flatten ++ output), none, changed,
        errors⟩ := by
  obtain ⟨labels, h⟩ := h
  rw [OriginLine.labelLines, h]
  rw [OriginLine.marker] at h
  simp only [next, h, copyBlock, Marker.labels, if_pos]

end Round

/-! ## one round -/

section Fold

variable {nest : Nest} {output : List OriginLine} {changed : Bool} {errors : List Diagnostic}

/-- Within an open block the lines of a nest are added to the body, and the blocks that they open
they close again. -/
theorem foldl_next_inside (h : nest.Marked) {origin copies depth : Nat} {body : List OriginLine} :
    nest.lines.foldl (Round.next settings constants)
        ⟨output, some ⟨origin, copies, depth, body⟩, changed, errors⟩ =
      ⟨output, some ⟨origin, copies, depth, nest.lines.reverse ++ body⟩, changed, errors⟩ := by
  induction nest generalizing depth body with
  | done => rfl
  | line l rest ih =>
      obtain ⟨hm, hr⟩ := h
      rw [OriginLine.marker] at hm
      simp [Nest.lines, Round.next, hm, ih hr]
  | block opening inner closing rest ihi ih =>
      obtain ⟨⟨labels, count, ho⟩, hi, ⟨last, hc⟩, hr⟩ := h
      rw [OriginLine.marker] at ho hc
      simp [Nest.lines, Round.next, ho, hc, ihi hi, ih hr]

/-- Outside all blocks the lines of a nest leave those of its unrolling, and any block among them
counts as a change. -/
theorem foldl_next_outside (h : nest.Marked) :
    nest.lines.foldl (Round.next settings constants) ⟨output, none, changed, errors⟩ =
      ⟨(nest.unrolled settings constants).lines.reverse ++ output, none,
        changed || decide (0 < nest.liveDepth settings constants),
        (nest.countErrors constants).reverse ++ errors⟩ := by
  induction nest generalizing output changed errors with
  | done => simp [Nest.lines, Nest.unrolled, Nest.liveDepth, Nest.countErrors]
  | line l rest ih =>
      rw [Nest.lines, List.foldl_cons, Round.next_plain h.1, ih h.2, Nest.unrolled, Nest.lines,
        List.reverse_cons, List.append_assoc]
      rfl
  | block opening body closing rest _ ih =>
      obtain ⟨ho, hb, hc, hr⟩ := h
      have copied : (List.replicate (opening.marker.copies settings constants)
          body.lines.reverse).flatten = (List.replicate (opening.marker.copies settings constants)
            body.lines).flatten.reverse := by
        simp [List.reverse_flatten]
      rw [Nest.lines, List.cons_append, List.foldl_cons, Round.next_opening ho, List.foldl_append,
        foldl_next_inside hb, List.append_nil, List.foldl_cons, Round.next_closing hc, ih hr]
      simp [Nest.unrolled, Nest.countErrors, Round.reverse_labelLines, Round.reverse_countErrors,
        copied, Nest.liveDepth_pos]

end Fold

/-- A round takes the lines of a nest to those of its unrolling. -/
theorem expandOnce_lines {nest : Nest} (h : nest.Marked) :
    expandOnce settings constants nest.lines =
      ⟨(nest.unrolled settings constants).lines.reverse, none,
        decide (0 < nest.liveDepth settings constants), (nest.countErrors constants).reverse⟩ := by
  rw [expandOnce, Round.start, foldl_next_outside h]
  simp [Round.finish]

/-! ## all rounds -/

/-- With a round for each level, rounds come to the expansion of a nest. -/
theorem expandRounds_eq_expanded {nest : Nest} (h : nest.Marked) {fuel : Nat} {e : Expansion}
    (reading : nest.lines = e.lines) (shallow : nest.liveDepth settings constants ≤ fuel) :
    (expandRounds settings constants fuel e).lines = nest.expanded settings constants ∧
      (expandRounds settings constants fuel e).rounds =
        e.rounds + nest.liveDepth settings constants := by
  induction fuel generalizing nest e with
  | zero =>
      have flat := Nat.le_zero.mp shallow
      rw [Nest.expanded_of_flat flat, flat]
      exact ⟨reading.symm, rfl⟩
  | succ fuel ih =>
      rw [expandRounds, ← reading, expandOnce_lines h]
      simp only [List.reverse_reverse]
      split
      case isTrue deep =>
          have deep := of_decide_eq_true deep
          have shallower :
              (nest.unrolled settings constants).liveDepth settings constants ≤ fuel := by
            rw [Nest.liveDepth_unrolled]
            omega
          obtain ⟨lines, rounds⟩ := ih h.unrolled (e := ⟨(nest.unrolled settings constants).lines,
            e.rounds + 1, e.errors ++ nest.countErrors constants⟩) rfl shallower
          rw [lines, rounds, Nest.expanded_unrolled, Nest.liveDepth_unrolled]
          refine ⟨rfl, ?_⟩
          dsimp only
          omega
      case isFalse flat =>
          have flat : nest.liveDepth settings constants = 0 := by simpa using flat
          rw [Nest.expanded_of_flat flat, flat]
          exact ⟨reading.symm, rfl⟩

/-- The lines of a nest give no error but for counts without a value. -/
theorem repeatCount_of_mem_errors {nest : Nest} (h : nest.Marked) {fuel : Nat} {e : Expansion}
    (reading : nest.lines = e.lines)
    (he : ∀ error ∈ e.errors, ∃ count, error.cause = .repeatCount count) :
    ∀ error ∈ (expandRounds settings constants fuel e).errors,
      ∃ count, error.cause = .repeatCount count := by
  induction fuel generalizing nest e with
  | zero => exact he
  | succ fuel ih =>
      rw [expandRounds, ← reading, expandOnce_lines h]
      simp only [List.reverse_reverse]
      split
      · exact ih h.unrolled rfl
          (List.forall_mem_append.mpr ⟨he, nest.repeatCount_of_mem_countErrors⟩)
      · exact he

end Rounds

/-! ## the expansion of a source -/

/-- The lines of a source text, each with its number. -/
def numbered (source : String) : List OriginLine :=
  ((linesOf source).zipIdx 1).map fun (text, number) => ⟨text, number⟩

theorem expand_eq_expandRounds (settings : Settings) (source : String) :
    expand settings source = expandRounds settings (constants (linesOf source))
      settings.repeatDepth ⟨numbered source, 0, []⟩ :=
  rfl

/-- The expansion of a well nested source is that of its nest, line by line and with the line that
each comes from, if the rounds suffice for its depth.  It takes a round for each level and leaves
no marker. -/
theorem expand_eq_expanded (settings : Settings) (source : String) (nest : Nest)
    (reading : nest.Reads (numbered source))
    (shallow : nest.liveDepth settings (constants (linesOf source)) ≤ settings.repeatDepth) :
    (expand settings source).lines = nest.expanded settings (constants (linesOf source)) ∧
      (expand settings source).rounds = nest.liveDepth settings (constants (linesOf source)) ∧
      ∀ line ∈ (expand settings source).lines, marker line.text = .plain := by
  obtain ⟨lines, rounds⟩ := expandRounds_eq_expanded reading.marked
    (e := ⟨numbered source, 0, []⟩) reading.lines shallow
  rw [expand_eq_expandRounds, lines, rounds]
  refine ⟨rfl, Nat.zero_add _, fun line hl => ?_⟩
  have plain := Nest.marker_expanded reading.marked line hl
  rwa [OriginLine.marker] at plain

/-- A block that is copied twice, with one in it that is not copied at all. -/
def twoLevels : String :=
  "FIRST: REPEAT N\n REPT 0\n REPEAT 9\n HALT\n ENDR\n ENDR\n NOP\nLAST: ENDR\nN: EQU 2"

/-- The nest of `twoLevels`. -/
def twoLevelsNest : Nest :=
  .block ⟨"FIRST: REPEAT N", 1⟩
    (.block ⟨" REPT 0", 2⟩
      (.block ⟨" REPEAT 9", 3⟩ (.line ⟨" HALT", 4⟩ .done) ⟨" ENDR", 5⟩ .done)
      ⟨" ENDR", 6⟩ (.line ⟨" NOP", 7⟩ .done))
    ⟨"LAST: ENDR", 8⟩ (.line ⟨"N: EQU 2", 9⟩ .done)

theorem reads_twoLevels : twoLevelsNest.Reads (numbered twoLevels) where
  lines := by decide +kernel
  marked := by
    refine ⟨⟨["FIRST"], "N", ?_⟩, ⟨⟨[], "0", ?_⟩, ⟨⟨[], "9", ?_⟩, ⟨?_, trivial⟩, ⟨[], ?_⟩, trivial⟩,
      ⟨[], ?_⟩, ?_, trivial⟩, ⟨["LAST"], ?_⟩, ?_, trivial⟩ <;> decide +kernel

theorem expand_eq_expanded_twoLevels :
    (expand .default twoLevels).lines =
        [⟨"FIRST:", 1⟩, ⟨" NOP", 7⟩, ⟨" NOP", 7⟩, ⟨"LAST:", 8⟩, ⟨"N: EQU 2", 9⟩] ∧
      (expand .default twoLevels).rounds = 2 ∧
      ∀ line ∈ (expand .default twoLevels).lines, marker line.text = .plain := by
  have depth : twoLevelsNest.liveDepth .default (constants (linesOf twoLevels)) = 2 := by
    decide +kernel
  have expanded : twoLevelsNest.expanded .default (constants (linesOf twoLevels)) =
      [⟨"FIRST:", 1⟩, ⟨" NOP", 7⟩, ⟨" NOP", 7⟩, ⟨"LAST:", 8⟩, ⟨"N: EQU 2", 9⟩] := by
    decide +kernel
  have result := expand_eq_expanded .default twoLevels twoLevelsNest reads_twoLevels
    (by rw [depth]; decide)
  rwa [expanded, depth] at result

/-- A well nested source has no error but for counts without a value. -/
theorem repeatCount_of_mem_expand {settings : Settings} {source : String} {nest : Nest}
    (reading : nest.Reads (numbered source)) :
    ∀ error ∈ (expand settings source).errors, ∃ count, error.cause = .repeatCount count := by
  rw [expand_eq_expandRounds]
  exact repeatCount_of_mem_errors reading.marked reading.lines nofun

end Repeat

end Z80Workbench
