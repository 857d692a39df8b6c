/-!
# Z80Workbench.Text.Lines

Splitting a text into lines. Besides the line feed and the carriage return, the vertical tab,
the form feed, three information separators, the next-line control and the two Unicode
separators end a line; a carriage return with its line feed ends one line, and a final line end
makes no further line.
-/

namespace Z80Workbench.Text

/-- A character that ends a line. -/
def isLineBreak (c : Char) : Bool :=
  let n := c.toNat
  (10 ≤ n && n ≤ 13) || (28 ≤ n && n ≤ 30) || n == 133 || n == 8232 || n == 8233

/-- What is known of a text from its right end up to some point: its next character and its
lines. -/
structure LineScan where
  next : Option Char
  lines : List (List Char)

/-- Adds the character before the part scanned so far. The carriage return of a pair adds no
line, because its line feed already has. -/
def LineScan.before (scan : LineScan) (c : Char) : LineScan where
  next := some c
  lines :=
    if c = '\r' ∧ scan.next = some '\n' then scan.lines
    else if isLineBreak c then [] :: scan.lines
    else
      match scan.lines with
      | [] => [[c]]
      | line :: rest => (c :: line) :: rest

/-- The lines of a text, without their ends. -/
def splitLines (cs : List Char) : List (List Char) :=
  (cs.foldr (fun c (scan : LineScan) => scan.before c) ⟨none, []⟩).lines

/-- The lines of a string, without their ends. -/
def linesOf (s : String) : List String :=
  (splitLines s.toList).map String.ofList

/-- Joins lines with a line feed between neighbours. -/
def joinLines (lines : List String) : String :=
  "\n".intercalate lines

/-- Turns a carriage return, alone or with its line feed, into a line feed. -/
def unifyLineEnds (cs : List Char) : List Char :=
  (cs.foldr
    (fun c (scan : Option Char × List Char) =>
      if c = '\r' then
        (some c, if scan.1 = some '\n' then scan.2 else '\n' :: scan.2)
      else (some c, c :: scan.2))
    (none, [])).2

@[simp] theorem splitLines_nil : splitLines [] = [] := rfl

/-- A text without line ends is one line. -/
theorem splitLines_of_no_break {cs : List Char} (hne : cs ≠ [])
    (h : ∀ c ∈ cs, isLineBreak c = false) : splitLines cs = [cs] := by
  induction cs with
  | nil => contradiction
  | cons c rest ih =>
    have hc := h c (by simp)
    have hr : c ≠ '\r' := by rintro rfl; simp [isLineBreak] at hc
    cases rest with
    | nil => simp [splitLines, LineScan.before, hc, hr]
    | cons d ds =>
      have ihd := ih (by simp) (fun x hx => h x (by simp [hx]))
      simp only [splitLines, List.foldr_cons] at ihd ⊢
      rw [LineScan.before]
      simp [hr, hc, ihd]

end Z80Workbench.Text
