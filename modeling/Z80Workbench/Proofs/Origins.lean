import Z80Workbench.Proofs.Rounds

/-!
# Z80Workbench.Proofs.Origins

Where the lines of an expansion come from.  Whether blocks are well nested or not, every line of an
expansion is a line of the source as it stands, or keeps the labels of a line that starts or ends a
block there, and its number is that of the line it comes from.  If expansion ends before its rounds
are used up, then no line starts or ends a block any more, and the expanded text stays as it is when
it is expanded again.
-/

namespace Z80Workbench

open Text Source

/-- The line is one of the given lines as it stands, or keeps the labels of one that starts or ends
a block; its origin is the place of that line, counted from one. -/
def OriginLine.StemsFrom (line : OriginLine) (inputs : List String) : Prop :=
  0 < line.origin ∧ ∃ input, inputs[line.origin - 1]? = some input ∧
    (line.text = input ∨
      ∃ marked, parseLine? line.origin input = some marked ∧ marked.MarksBlock ∧
        marked.labels ≠ [] ∧ line.text = Repeat.labelLine marked.labels)

namespace Repeat

variable {settings : Settings} {constants : Symbols}

/-! ## the lines of the source -/

/-- Label lines hold no marker, so that the labels on one stem from a line of the source. -/
theorem inherited_stemsFrom (inputs : List String) :
    Inherited fun line => line.StemsFrom inputs := by
  intro line labels ⟨pos, input, hi, stems⟩ hm kept hk
  unfold keptLabels at hk
  split at hk
  case isTrue => cases hk
  case isFalse hne =>
      rw [List.mem_singleton.mp hk]
      obtain rfl | ⟨marked, hp, -, -, ht⟩ := stems
      · obtain ⟨found, hf, marks, rfl⟩ := exists_of_marker hm
        refine ⟨pos, _, hi, .inr ⟨{ found with number := line.origin }, ?_, marks, ?_, rfl⟩⟩
        · rw [parseLine?_eq_map, hf]
          rfl
        · simpa using hne
      · have plain : marker line.text = .plain := by
          rw [ht]
          exact marker_labelLine fun label hl => isLabel_of_parseLine hp hl
        rw [plain] at hm
        obtain ⟨_, hm⟩ | hm := hm <;> cases hm

/-- Every line of a source is numbered by its place. -/
theorem stemsFrom_numbered (source : String) :
    ∀ line ∈ numbered source, line.StemsFrom (linesOf source) := by
  intro line hl
  obtain ⟨⟨text, number⟩, hm, rfl⟩ := List.mem_map.mp hl
  obtain ⟨pos, hi⟩ := List.mem_zipIdx_iff_le_and_getElem?_sub.mp hm
  exact ⟨pos, text, hi, .inl rfl⟩

/-! ## where expansion ends -/

namespace Round

variable {round : Round} {line : OriginLine}

/-- A line that changes nothing outside all blocks is no marker. -/
theorem of_next_unchanged (h : (round.next settings constants line).changed = false) :
    round.changed = false ∧
      (round.block = none →
        line.marker = .plain ∧ (round.next settings constants line).block = none) := by
  rw [OriginLine.marker]
  unfold Round.next at h ⊢
  split at h
  case h_1 =>
      unfold openBlock at h
      dsimp only at h
      split at h <;> cases h
  case h_2 => cases h
  case h_3 hb hm => exact ⟨h, fun _ => ⟨hm, by simpa [hm] using hb⟩⟩
  case h_4 hb hm => exact ⟨h, fun none => absurd (hb.symm.trans none) (Option.some_ne_none _)⟩
  case h_5 hb hm =>
      refine ⟨?_, fun none => absurd (hb.symm.trans none) (Option.some_ne_none _)⟩
      split at h <;> exact h
  case h_6 hb hm => exact ⟨h, fun none => absurd (hb.symm.trans none) (Option.some_ne_none _)⟩

/-- Lines that change nothing outside all blocks are no markers. -/
theorem of_foldl_unchanged {lines : List OriginLine}
    (h : (lines.foldl (Round.next settings constants) round).changed = false) :
    round.changed = false ∧ (round.block = none → ∀ line ∈ lines, line.marker = .plain) := by
  induction lines generalizing round with
  | nil => exact ⟨h, fun _ => nofun⟩
  | cons line rest ih =>
      obtain ⟨after, plain⟩ := ih h
      obtain ⟨before, outside⟩ := of_next_unchanged after
      refine ⟨before, fun none => ?_⟩
      obtain ⟨first, none⟩ := outside none
      exact List.forall_mem_cons.mpr ⟨first, plain none⟩

theorem changed_finish (round : Round) : round.finish.changed = round.changed := by
  unfold Round.finish
  split <;> rfl

end Round

/-- A round without a change has met no marker. -/
theorem plain_of_unchanged {lines : List OriginLine}
    (h : (expandOnce settings constants lines).changed = false) :
    ∀ line ∈ lines, line.marker = .plain := by
  rw [expandOnce, Round.changed_finish] at h
  exact (Round.of_foldl_unchanged h).2 rfl

/-- Rounds that end before they are used up leave no marker. -/
theorem plain_of_rounds_lt {fuel : Nat} {e : Expansion}
    (h : (expandRounds settings constants fuel e).rounds < e.rounds + fuel) :
    ∀ line ∈ (expandRounds settings constants fuel e).lines, line.marker = .plain := by
  induction fuel generalizing e with
  | zero => exact absurd h (Nat.lt_irrefl _)
  | succ fuel ih =>
      rw [expandRounds] at h ⊢
      split at h
      case isTrue changed =>
          rw [if_pos changed]
          refine ih ?_
          dsimp only
          omega
      case isFalse unchanged =>
          rw [if_neg unchanged]
          exact plain_of_unchanged (Bool.eq_false_iff.mpr unchanged)

/-- Lines without markers are not expanded. -/
theorem expandRounds_of_plain {fuel : Nat} {e : Expansion}
    (h : ∀ line ∈ e.lines, line.marker = .plain) : expandRounds settings constants fuel e = e := by
  cases fuel with
  | zero => rfl
  | succ fuel =>
      have round := @expandOnce_lines settings constants _ (Nest.marked_ofLines h)
      rw [Nest.lines_ofLines, Nest.liveDepth_ofLines] at round
      rw [expandRounds, round]
      rfl

/-! ## the expansion of a source -/

variable {source : String}

/-- What stands on the lines of an expanded text stands on those of the expansion. -/
theorem mem_of_mem_linesOf_text {text : String}
    (h : text ∈ linesOf (expand settings source).text) :
    ∃ line ∈ (expand settings source).lines, line.text = text := by
  have unbroken : ∀ text ∈ (expand settings source).lines.map (·.text),
      ∀ c ∈ text.toList, isLineBreak c = false := by
    intro text ht
    obtain ⟨line, hl, rfl⟩ := List.mem_map.mp ht
    exact unbroken_expand settings source line hl
  rw [Expansion.text, linesOf_joinLines unbroken] at h
  refine List.mem_map.mp ?_
  split at h
  · exact List.dropLast_subset _ h
  · exact h

/-- An expanded text without markers is expanded no further. -/
theorem expand_text_of_plain (other : Settings)
    (h : ∀ line ∈ (expand settings source).lines, marker line.text = .plain) :
    (expand other (expand settings source).text).rounds = 0 ∧
      (expand other (expand settings source).text).errors = [] := by
  have plain : ∀ line ∈ numbered (expand settings source).text, line.marker = .plain := by
    intro line hl
    obtain ⟨⟨text, number⟩, hm, rfl⟩ := List.mem_map.mp hl
    obtain ⟨kept, hk, ht⟩ := mem_of_mem_linesOf_text (List.fst_mem_of_mem_zipIdx hm)
    rw [OriginLine.marker]
    dsimp only at ht ⊢
    rw [← ht]
    exact h kept hk
  rw [expand_eq_expandRounds, expandRounds_of_plain plain]
  exact ⟨rfl, rfl⟩

/-- Expansion invents no line.  Whatever the source, each line of its expansion comes with one
origin and stems from the line there; if rounds are left over, then no line starts or ends a block,
and the expanded text takes no round and gives no error when it is expanded again. -/
theorem stemsFrom_expand (settings : Settings) (source : String) :
    ((expand settings source).lines.map (·.text)).length =
        ((expand settings source).lines.map (·.origin)).length ∧
      (∀ line ∈ (expand settings source).lines, line.StemsFrom (linesOf source)) ∧
        ((expand settings source).rounds < settings.repeatDepth →
          (∀ line ∈ (expand settings source).lines, ∀ number parsed,
            parseLine? number line.text = some parsed → ¬parsed.MarksBlock) ∧
          ∀ other, (expand other (expand settings source).text).rounds = 0 ∧
            (expand other (expand settings source).text).errors = []) := by
  refine ⟨by rw [List.length_map, List.length_map], ?stems, fun rounds => ?final⟩
  case stems =>
      exact forall_mem_expandRounds (inherited_stemsFrom _) (stemsFrom_numbered source)
  case final =>
      have plain : ∀ line ∈ (expand settings source).lines, marker line.text = .plain := by
        intro line hl
        have left := rounds.trans_eq (Nat.zero_add settings.repeatDepth).symm
        have plain := plain_of_rounds_lt (e := ⟨numbered source, 0, []⟩) left line hl
        rwa [OriginLine.marker] at plain
      exact ⟨fun line hl => marker_eq_plain_iff.mp (plain line hl),
        fun other => expand_text_of_plain other plain⟩

/-- A block without an end, with a label on its first line, behind the end of no block. -/
def looseEnds : String :=
  "LAST: ENDR\n NOP\nFIRST: REPEAT 2\n HALT"

theorem stemsFrom_expand_looseEnds :
    (expand .default looseEnds).lines =
        [⟨"LAST:", 1⟩, ⟨" NOP", 2⟩, ⟨"FIRST:", 3⟩, ⟨" HALT", 4⟩, ⟨" HALT", 4⟩] ∧
      (∀ line ∈ (expand .default looseEnds).lines, line.StemsFrom (linesOf looseEnds)) ∧
        (expand .default looseEnds).rounds = 1 ∧
          (expand .default (expand .default looseEnds).text).rounds = 0 := by
  obtain ⟨-, stems, final⟩ := stemsFrom_expand .default looseEnds
  have rounds : (expand .default looseEnds).rounds = 1 := by decide +kernel
  exact ⟨by decide +kernel, stems, rounds, (final (by rw [rounds]; decide)).2 .default |>.1⟩

end Repeat

end Z80Workbench
