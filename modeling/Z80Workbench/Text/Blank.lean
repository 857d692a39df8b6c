/-!
# Z80Workbench.Text.Blank

White space, trimming and splitting at white space. Every blank of the Unicode standard counts,
the four information separators and the next-line control among them.
-/

namespace Z80Workbench.Text

/-- Inclusive code point ranges of white space. -/
def blankRanges : List (Nat × Nat) :=
  [(9, 13), (28, 32), (133, 133), (160, 160), (5760, 5760), (8192, 8202), (8232, 8233),
   (8239, 8239), (8287, 8287), (12288, 12288)]

/-- A white space character. -/
def isBlank (c : Char) : Bool :=
  blankRanges.any fun r => r.1 ≤ c.toNat && c.toNat ≤ r.2

/-- White space of the core library is white space here. -/
theorem isBlank_of_isWhitespace {c : Char} (h : c.isWhitespace) : isBlank c := by
  simp only [Char.isWhitespace, Bool.or_eq_true, decide_eq_true_eq] at h
  obtain ((h | h) | h) | h := h <;> subst h <;> decide

/-- Drops leading white space. -/
def trimStart (cs : List Char) : List Char :=
  cs.dropWhile isBlank

/-- Drops trailing white space. -/
def trimEnd (cs : List Char) : List Char :=
  (cs.reverse.dropWhile isBlank).reverse

/-- Drops leading and trailing white space. -/
def trim (cs : List Char) : List Char :=
  trimEnd (trimStart cs)

/-- Drops the white space around a string. -/
def trimString (s : String) : String :=
  String.ofList (trim s.toList)

/-- The first word of a text that starts with none blank, and the rest, trimmed. -/
def headWord (cs : List Char) : List Char × List Char :=
  (cs.takeWhile (!isBlank ·), trim (cs.dropWhile (!isBlank ·)))

/-- Adds a character in front of the words of the text that follows it. -/
def wordsStep (c : Char) (words : List (List Char)) : List (List Char) :=
  if isBlank c then
    match words with
    | [] :: _ => words
    | _ => [] :: words
  else
    match words with
    | [] => [[c]]
    | word :: rest => (c :: word) :: rest

/-- The words of a text: its longest pieces without white space. -/
def words (cs : List Char) : List (List Char) :=
  (cs.foldr wordsStep []).filter (· ≠ [])

@[simp] theorem trimStart_nil : trimStart [] = [] := rfl

@[simp] theorem trimEnd_nil : trimEnd [] = [] := rfl

@[simp] theorem trim_nil : trim [] = [] := rfl

/-- Trimming at the end changes nothing in a text that ends with no blank. -/
theorem trimEnd_concat {cs : List Char} {c : Char} (h : isBlank c = false) :
    trimEnd (cs ++ [c]) = cs ++ [c] := by
  simp [trimEnd, h]

/-- A blank at the end is dropped. -/
theorem trimEnd_concat_blank {cs : List Char} {c : Char} (h : isBlank c = true) :
    trimEnd (cs ++ [c]) = trimEnd cs := by
  simp [trimEnd, h]

end Z80Workbench.Text
