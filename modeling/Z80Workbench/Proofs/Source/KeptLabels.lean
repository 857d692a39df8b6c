import Z80Workbench.Proofs.Expansion
import Z80Workbench.Proofs.Source.Capitals
import Z80Workbench.Proofs.Source.LabelLine
import Z80Workbench.Proofs.Text.Fixed

/-!
# Z80Workbench.Proofs.Source.KeptLabels

Which labels the label line of a block keeps.  The line is read again, with a colon behind every
label, and only an identifier is a label in front of a colon.  Not every label is one: a bare label
may be any word, and the upper case of an identifier may hold other characters.  The labels come
back as they were, alone on their line, if and only if all of them are identifiers.
-/

namespace Z80Workbench.Source

open Text
open Z80Workbench.Expr (isQuote)

/-! ## identifiers -/

theorem continues_of_isIdentifier {label : List Char} (h : isIdentifier label = true) :
    ∀ c ∈ label, continuesLabel c = true := by
  cases label with
  | nil => cases h
  | cons c rest =>
      obtain ⟨first, others⟩ := Bool.and_eq_true_iff.mp h
      exact List.forall_mem_cons.mpr
        ⟨continuesLabel_of_startsLabel first, List.all_eq_true.mp others⟩

/-- What a colon label takes off the front of a text is an identifier. -/
theorem isIdentifier_of_colonLabel {cs label rest : List Char}
    (h : colonLabel? cs = some (label, rest)) : isIdentifier label = true := by
  cases cs with
  | nil => cases h
  | cons c more =>
      rw [colonLabel?] at h
      split at h
      case isTrue first =>
          obtain ⟨_, -, he⟩ := Option.map_eq_some_iff.mp h
          cases he
          refine Bool.and_eq_true_iff.mpr ⟨first, List.all_eq_true.mpr fun d hd => ?_⟩
          exact List.mem_takeWhile_imp hd
      case isFalse => cases h

theorem isIdentifier_of_mem_colonLabels {cs label : List Char} (h : label ∈ (colonLabels cs).1) :
    isIdentifier label = true := by
  fun_induction colonLabels cs with
  | case1 cs => exact absurd h List.not_mem_nil
  | case2 cs first rest found more ih =>
      obtain rfl | h := List.mem_cons.mp h
      · exact isIdentifier_of_colonLabel found
      · exact ih h

/-- An identifier in front of a single colon is taken off. -/
theorem colonLabel?_append {label rest : List Char} (h : isIdentifier label = true)
    (single : rest.head? ≠ some ':') :
    colonLabel? (label ++ ':' :: rest) = some (label, trimStart rest) := by
  cases label with
  | nil => cases h
  | cons c more =>
      obtain ⟨first, others⟩ := Bool.and_eq_true_iff.mp h
      have others := List.all_eq_true.mp others
      have after : afterColon? (':' :: rest) = some (trimStart rest) := by
        cases rest with
        | nil => rfl
        | cons d rest =>
            have hd : d ≠ ':' := by simpa using single
            simp [afterColon?, hd]
      have stop : (':' :: rest).takeWhile continuesLabel = [] ∧
          (':' :: rest).dropWhile continuesLabel = ':' :: rest := ⟨rfl, rfl⟩
      rw [List.cons_append, colonLabel?, if_pos first, List.takeWhile_append_of_pos others,
        List.dropWhile_append_of_pos others, stop.1, stop.2, after, List.append_nil]
      rfl

/-- Identifiers are taken off a line of labels one after the other. -/
theorem colonLabels_spaced {labels : List (List Char)}
    (h : ∀ label ∈ labels, isIdentifier label = true) :
    colonLabels (spaced labels) = (labels, []) := by
  induction labels with
  | nil => exact colonLabels_of_none rfl
  | cons label rest ih =>
      obtain ⟨first, others⟩ := List.forall_mem_cons.mp h
      have ih := ih others
      cases rest with
      | nil =>
          have found : colonLabel? (spaced [label]) = some (label, []) :=
            colonLabel?_append first (by simp)
          rw [colonLabels_of_colonLabel found, colonLabels_of_none rfl]
      | cons next more =>
          have labels (l) (hl : l ∈ next :: more) : IsLabel l :=
            isLabel_of_continues (continues_of_isIdentifier (others l hl))
          have tagged := tagged_of_spaced labels (List.cons_ne_nil next more)
            (List.append_nil _).symm (.inl rfl)
          have found : colonLabel? (spaced (label :: next :: more)) =
              some (label, spaced (next :: more)) := by
            have taken : colonLabel? (label ++ ':' :: ' ' :: spaced (next :: more)) =
                some (label, trimStart (' ' :: spaced (next :: more))) :=
              colonLabel?_append first (by simp)
            have blank : trimStart (' ' :: spaced (next :: more)) = spaced (next :: more) :=
              tagged.trimStart_eq
            rw [blank] at taken
            rw [spaced, List.append_assoc]
            · exact taken
            · exact List.cons_ne_nil next more
          rw [colonLabels_of_colonLabel found, ih]

/-! ## the label line, read again -/

/-- The only word of a text without blanks around it is the text. -/
theorem eq_of_headWord {cs : List Char} (trimmed : trim cs = cs) (single : (headWord cs).2 = []) :
    cs = (headWord cs).1 := by
  have split : cs = (headWord cs).1 ++ cs.dropWhile (!isBlank ·) :=
    List.takeWhile_append_dropWhile.symm
  have solid : trim (headWord cs).1 = (headWord cs).1 :=
    trim_of_plain fun c hc => by simpa using List.mem_takeWhile_imp hc
  have around := @trim_around [] _ (List.forall_mem_nil _) (trim_eq_nil_iff.mp single) (headWord cs).1
  rw [List.nil_append, ← split, trimmed, solid] at around
  exact around

/-- The parts that a line which is not empty without its comment is read into. -/
theorem parseLine?_of_stripComment {number : Nat} {text : String} {cs : List Char}
    (hs : stripComment text.toList = cs) (hne : cs ≠ []) :
    parseLine? number text = some
      { number
        text
        labels := ((colonLabels cs).1 ++
          (statement ((colonLabels cs).1 ≠ []) (colonLabels cs).2).label.toList).map fun label =>
            String.ofList (upper label)
        operation := (statement ((colonLabels cs).1 ≠ []) (colonLabels cs).2).operation
        args := String.ofList (statement ((colonLabels cs).1 ≠ []) (colonLabels cs).2).args } := by
  unfold parseLine?
  split
  case h_1 hn => exact absurd (hs.symm.trans hn) hne
  case h_2 => rw [hs]

theorem colonLabels_snd_of_none {cs : List Char} (h : (colonLabels cs).1 = []) :
    (colonLabels cs).2 = cs := by
  cases hf : colonLabel? cs with
  | none => rw [colonLabels_of_none hf]
  | some found =>
      rw [colonLabels_of_colonLabel hf] at h
      cases h

/-- Without an operation, a text behind the colon labels is a single word, and is a label. -/
theorem bare_of_statement {labelled : Bool} {cs : List Char} (hne : cs ≠ [])
    (h : (statement labelled cs).operation = none) :
    labelled = false ∧ (headWord cs).2 = [] ∧
      (statement labelled cs).label = some (headWord cs).1 := by
  rw [statement_of_ne_nil hne] at h ⊢
  split at h
  case isTrue => cases h
  case isFalse unknown =>
      rw [if_neg unknown]
      split at h
      case isTrue => split at h <;> cases h
      case isFalse single =>
          rw [if_neg single]
          split at h
          case isTrue => cases h
          case isFalse bare =>
              rw [if_neg bare]
              exact ⟨Bool.not_eq_true _ ▸ bare, not_not.mp single, rfl⟩

/-- On a line of labels there are the labels, colons and spaces. -/
theorem mem_of_mem_spaced {c : Char} {labels : List (List Char)} (h : c ∈ spaced labels) :
    c = ':' ∨ c = ' ' ∨ ∃ label ∈ labels, c ∈ label := by
  induction labels with
  | nil => exact absurd h List.not_mem_nil
  | cons label rest ih =>
      have split : c ∈ label ∨ c = ':' ∨ c = ' ' ∨ c ∈ spaced rest := by
        cases rest <;> simp [spaced] at h ⊢ <;> tauto
      obtain hl | hc | hb | hr := split
      · exact .inr (.inr ⟨label, List.mem_cons_self, hl⟩)
      · exact .inl hc
      · exact .inr (.inl hb)
      · obtain hc | hb | ⟨other, ho, hc⟩ := ih hr
        · exact .inl hc
        · exact .inr (.inl hb)
        · exact .inr (.inr ⟨other, List.mem_cons_of_mem label ho, hc⟩)

section LabelLine

variable {labels : List String}

/-- A line of identifiers is read as its labels in capital letters. -/
theorem parseLine?_of_isIdentifier (hne : labels ≠ [])
    (h : ∀ label ∈ labels, isIdentifier label.toList = true) (number : Nat) :
    parseLine? number (Repeat.labelLine labels) = some
      { number
        text := Repeat.labelLine labels
        labels := labels.map upperString
        operation := none
        args := "" } := by
  obtain ⟨tagged, dropped, hd, comment⟩ := stripComment_labelLine
    (fun label hl => isLabel_of_continues (continues_of_isIdentifier (h label hl))) hne
  -- identifiers hold no semicolon
  have whole : stripComment (Repeat.labelLine labels).toList =
      spaced (labels.map String.toList) := by
    rw [toList_labelLine] at hd ⊢
    obtain rfl | ⟨back, rfl⟩ := comment
    · rw [List.append_nil] at hd
      exact hd.symm
    · have mem : ';' ∈ spaced (labels.map String.toList) := by
        rw [hd]
        simp
      obtain hc | hb | ⟨_, hm, hc⟩ := mem_of_mem_spaced mem
      · exact absurd hc (by decide)
      · exact absurd hb (by decide)
      · obtain ⟨label, hl, rfl⟩ := List.mem_map.mp hm
        exact absurd (continues_of_isIdentifier (h label hl) _ hc) (by decide)
  have parts : colonLabels (spaced (labels.map String.toList)) = (labels.map String.toList, []) :=
    colonLabels_spaced (by simpa using h)
  have full : spaced (labels.map String.toList) ≠ [] := by
    rw [← whole]
    exact tagged.ne_nil
  rw [parseLine?_of_stripComment whole full, parts]
  simp [statement, upperString]

/-- Where the labels of a line of capital labels come back alone on it, they are identifiers. -/
theorem isIdentifier_of_parseLine? (hne : labels ≠ [])
    (isLabel : ∀ label ∈ labels, IsLabel label.toList)
    (capital : ∀ label ∈ labels, ∀ c ∈ label.toList, IsFixed c) {number : Nat} {kept : SourceLine}
    (hp : parseLine? number (Repeat.labelLine labels) = some kept) (same : kept.labels = labels)
    (bare : kept.operation = none) : ∀ label ∈ labels, isIdentifier label.toList = true := by
  obtain ⟨tagged, dropped, hd, comment⟩ := stripComment_labelLine isLabel hne
  generalize hs : stripComment (Repeat.labelLine labels).toList = cs at tagged hd
  have fixed : ∀ c ∈ cs, IsFixed c := by
    intro c hc
    have mem : c ∈ (Repeat.labelLine labels).toList := by
      rw [hd]
      exact List.mem_append_left _ hc
    rw [toList_labelLine] at mem
    obtain rfl | rfl | ⟨_, hm, hc⟩ := mem_of_mem_spaced mem
    · rfl
    · rfl
    · obtain ⟨label, hl, rfl⟩ := List.mem_map.mp hm
      exact capital label hl c hc
  rw [parseLine?_of_stripComment hs tagged.ne_nil, Option.some.injEq] at hp
  rw [← hp] at same bare
  dsimp only at same bare
  by_cases rest : (colonLabels cs).2 = []
  case pos =>
      -- every label is a colon label, and has been in capital letters before
      rw [rest] at same
      intro label hl
      rw [← same] at hl
      obtain ⟨raw, hr, rfl⟩ := List.mem_map.mp hl
      have hr : raw ∈ (colonLabels cs).1 := by simpa [statement] using hr
      have kept : upper raw = raw :=
        upper_of_fixed fun c hc => fixed c ((mem_of_mem_colonLabels c cs).1 raw hr hc)
      rw [String.toList_ofList, kept]
      exact isIdentifier_of_mem_colonLabels hr
  case neg =>
      -- a bare label is the whole line, but a label line holds a colon behind the label
      obtain ⟨unlabelled, single, label⟩ := bare_of_statement rest bare
      have none : (colonLabels cs).1 = [] := by simpa using unlabelled
      rw [label, none] at same
      rw [colonLabels_snd_of_none none] at same single
      have word : [String.ofList cs] = labels := by
        rw [← eq_of_headWord tagged.trim_eq single] at same
        simpa [upper_of_fixed fixed] using same
      have colon : dropped = [':'] := by
        rw [toList_labelLine, ← word] at hd
        simpa [spaced] using hd.symm
      obtain rfl | ⟨back, rfl⟩ := comment <;> simp at colon

/-- The labels of a line are read from their label line as they were, with nothing behind them, if
and only if all of them are identifiers; in any case there is neither a directive nor an instruction
on it. -/
theorem parseLine?_labelLine {number : Nat} {text : String} {line : SourceLine}
    (h : parseLine? number text = some line) (hne : line.labels ≠ []) (other : Nat) :
    ∃ kept, parseLine? other (Repeat.labelLine line.labels) = some kept ∧
      kept.directive? = none ∧ kept.isInstruction = false ∧
        ((kept.labels = line.labels ∧ kept.operation = none ∧ kept.args = "") ↔
          ∀ label ∈ line.labels, isIdentifier label.toList = true) := by
  have isLabel (label) (hl : label ∈ line.labels) := isLabel_of_parseLine h hl
  have capital : ∀ label ∈ line.labels, ∀ c ∈ label.toList, IsFixed c := by
    intro label hl c hc
    obtain ⟨raw, -, rfl⟩ := exists_raw_of_parseLine h hl
    rw [String.toList_ofList] at hc
    obtain ⟨_, -, hc⟩ := List.mem_flatMap.mp hc
    exact fixed_of_mem_upperChar hc
  have tagged := (stripComment_labelLine isLabel hne).1
  obtain ⟨kept, read⟩ : ∃ kept, parseLine? other (Repeat.labelLine line.labels) = some kept :=
    ⟨_, parseLine?_of_stripComment rfl tagged.ne_nil⟩
  refine ⟨kept, read, directive?_of_labelLine isLabel read, ?instruction, ?same, ?identifiers⟩
  case instruction => exact isInstruction_of_labelLine isLabel read
  case same =>
      rintro ⟨same, bare, -⟩
      exact isIdentifier_of_parseLine? hne isLabel capital read same bare
  case identifiers =>
      intro identifiers
      rw [parseLine?_of_isIdentifier hne identifiers other] at read
      cases read
      have same (label) (hl : label ∈ line.labels) : upperString label = id label := by
        rw [upperString, upper_of_fixed (capital label hl), String.ofList_toList, id]
      exact ⟨(List.map_congr_left same).trans (List.map_id _), rfl, rfl⟩

end LabelLine

/-- A line with a colon label and a bare label in front of a block. -/
def chained : SourceLine :=
  ⟨1, "one: Two REPT 3", ["ONE", "TWO"], some (.directive .reptBegin), "3"⟩

theorem parseLine?_labelLine_chained :
    parseLine? 1 "one: Two REPT 3" = some chained ∧ chained.MarksBlock ∧
      ∃ kept, parseLine? 2 "ONE: TWO:" = some kept ∧ kept.labels = ["ONE", "TWO"] ∧
        kept.operation = none ∧ kept.args = "" := by
  have read : parseLine? 1 "one: Two REPT 3" = some chained := by decide +kernel
  obtain ⟨kept, again, -, -, same⟩ := parseLine?_labelLine read (by decide) 2
  exact ⟨read, by decide, kept, again, same.mpr (by decide)⟩

/-- A bare label that is no identifier is another label behind the block, or an unknown word. -/
theorem labelLine_renames :
    (∃ line kept, parseLine? 1 "1$ REPEAT 2" = some line ∧ line.MarksBlock ∧
        line.labels = ["1$"] ∧ parseLine? 1 (Repeat.labelLine line.labels) = some kept ∧
          kept.labels = ["1$:"]) ∧
      ∃ line kept, parseLine? 1 "A: 1$ REPEAT 2" = some line ∧ line.MarksBlock ∧
        line.labels = ["A", "1$"] ∧ parseLine? 1 (Repeat.labelLine line.labels) = some kept ∧
          kept.labels = ["A"] ∧ kept.operation = some (.unknown "1$:") := by
  let alone : SourceLine := ⟨1, "1$ REPEAT 2", ["1$"], some (.directive .repeatBegin), "2"⟩
  let behind : SourceLine :=
    ⟨1, "A: 1$ REPEAT 2", ["A", "1$"], some (.directive .repeatBegin), "2"⟩
  refine ⟨⟨alone, ⟨1, "1$:", ["1$:"], none, ""⟩, ?renamed⟩,
    ⟨behind, ⟨1, "A: 1$:", ["A"], some (.unknown "1$:"), ""⟩, ?unknown⟩⟩ <;>
    decide +kernel

end Z80Workbench.Source
