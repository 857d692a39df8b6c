import Z80Workbench.Proofs.Text.Capital
import Z80Workbench.Text.Lines

/-!
# Z80Workbench.Proofs.Text.Lines

Joining lines and splitting them again.  Lines without line ends come back as they were, but for
an empty last one, since the line feed in front of it only ends the line before it.
-/

namespace Z80Workbench.Text

/-! ## splitting -/

/-- A line end is a blank. -/
theorem isBlank_of_isLineBreak {c : Char} (h : isLineBreak c = true) : isBlank c = true := by
  simp only [isLineBreak, Bool.or_eq_true, Bool.and_eq_true, decide_eq_true_eq, beq_iff_eq] at h
  simp only [isBlank, blankRanges, List.any_cons, List.any_nil, Bool.or_eq_true, Bool.and_eq_true,
    decide_eq_true_eq, Bool.or_false]
  omega

/-- A character that ends no line belongs to the first line behind it. -/
theorem splitLines_cons {c : Char} (hc : isLineBreak c = false) (rest : List Char) :
    splitLines (c :: rest) =
      match splitLines rest with
      | [] => [[c]]
      | line :: more => (c :: line) :: more := by
  have hr : c ≠ '\r' := by
    rintro rfl
    contradiction
  rw [splitLines, List.foldr_cons, LineScan.before]
  simp only [hr, hc, false_and, if_false, Bool.false_eq_true]
  rfl

/-- A line end in front of some lines adds an empty line to them, or nothing. -/
theorem splitLines_cons_of_break {c : Char} (hc : isLineBreak c = true) (rest : List Char) :
    splitLines (c :: rest) = splitLines rest ∨ splitLines (c :: rest) = [] :: splitLines rest := by
  rw [splitLines, List.foldr_cons, LineScan.before]
  dsimp only
  rw [if_pos hc]
  split
  · exact .inl rfl
  · exact .inr rfl

/-- A line in front of a line feed is split off. -/
theorem splitLines_append {line rest : List Char} (h : ∀ c ∈ line, isLineBreak c = false) :
    splitLines (line ++ '\n' :: rest) = line :: splitLines rest := by
  induction line with
  | nil => rfl
  | cons c more ih =>
      rw [List.cons_append, splitLines_cons (h c List.mem_cons_self),
        ih fun d hd => h d (List.mem_cons_of_mem c hd)]

/-- The lines of a text have no line ends. -/
theorem not_isLineBreak_of_mem_splitLines {cs line : List Char} (h : line ∈ splitLines cs) :
    ∀ c ∈ line, isLineBreak c = false := by
  induction cs generalizing line with
  | nil => exact absurd h List.not_mem_nil
  | cons c rest ih =>
      cases hc : isLineBreak c with
      | true =>
          cases splitLines_cons_of_break hc rest with
          | inl hs => exact ih (hs ▸ h)
          | inr hs =>
              rw [hs] at h
              cases List.mem_cons.mp h with
              | inl he => simp [he]
              | inr hm => exact ih hm
      | false =>
          rw [splitLines_cons hc] at h
          split at h
          case h_1 => simp [List.mem_singleton.mp h, hc]
          case h_2 first more he =>
              cases List.mem_cons.mp h with
              | inl hf =>
                  rw [hf]
                  intro d hd
                  cases List.mem_cons.mp hd with
                  | inl hdc => rw [hdc, hc]
                  | inr hm => exact ih (he ▸ List.mem_cons_self) d hm
              | inr hm => exact ih (he ▸ List.mem_cons_of_mem first hm)

/-! ## joining -/

/-- Lines without line ends come back from the text that joins them, but for an empty last one. -/
theorem linesOf_joinLines {lines : List String}
    (h : ∀ line ∈ lines, ∀ c ∈ line.toList, isLineBreak c = false) :
    linesOf (joinLines lines) = if lines.getLast? = some "" then lines.dropLast else lines := by
  induction lines with
  | nil => rfl
  | cons line rest ih =>
      have hl := h line List.mem_cons_self
      cases rest with
      | nil =>
          by_cases he : line = ""
          · rw [he]
            rfl
          · have hne : line.toList ≠ [] := by simpa using he
            rw [joinLines, String.intercalate_singleton, linesOf, splitLines_of_no_break hne hl]
            simp [he]
      | cons next more =>
          have ih := ih fun found hf => h found (List.mem_cons_of_mem line hf)
          have hj : (joinLines (line :: next :: more)).toList =
              line.toList ++ '\n' :: (joinLines (next :: more)).toList := by
            simp [joinLines, String.intercalate_cons_cons]
          rw [linesOf, hj, splitLines_append hl, List.map_cons, String.ofList_toList, ← linesOf, ih,
            List.getLast?_cons_cons]
          split <;> rfl

/-- Every line that is not empty comes back at its place. -/
theorem getElem?_linesOf_joinLines {lines : List String}
    (h : ∀ line ∈ lines, ∀ c ∈ line.toList, isLineBreak c = false) {i : Nat} {line : String}
    (hi : lines[i]? = some line) (hne : line ≠ "") :
    (linesOf (joinLines lines))[i]? = some line := by
  rw [linesOf_joinLines h]
  split
  case isTrue hlast =>
      have hlen : i < lines.length := (List.getElem?_eq_some_iff.mp hi).1
      rw [List.getLast?_eq_getElem?] at hlast
      have front : i < lines.length - 1 := by
        by_contra hge
        have he : i = lines.length - 1 := by omega
        rw [he, hlast, Option.some.injEq] at hi
        exact hne hi.symm
      rw [List.getElem?_dropLast, if_pos front, hi]
  case isFalse => exact hi

/-! ## upper case -/

/-- Upper case adds no line end. -/
theorem not_isLineBreak_upper {cs : List Char} (h : ∀ c ∈ cs, isLineBreak c = false) :
    ∀ d ∈ upper cs, isLineBreak d = false := by
  intro d hd
  obtain ⟨c, hc, hd⟩ := List.mem_flatMap.mp hd
  cases hb : isBlank c with
  | true =>
      rw [upperChar_of_isBlank hb, List.mem_singleton] at hd
      rw [hd]
      exact h c hc
  | false =>
      have := not_blank hb hd
      rw [← Bool.not_eq_true]
      intro hbreak
      rw [isBlank_of_isLineBreak hbreak] at this
      contradiction

end Z80Workbench.Text
