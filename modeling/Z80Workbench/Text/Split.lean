/-!
# Z80Workbench.Text.Split

Splitting texts into pieces, and finding pieces in them.
-/

namespace Z80Workbench.Text

/-- Puts an element in front of the first of some pieces. -/
def pushFront {α : Type} (x : α) : List (List α) → List (List α)
  | [] => [[x]]
  | piece :: rest => (x :: piece) :: rest

/-- Splits a text at every occurrence of a character. -/
def splitAt (separator : Char) : List Char → List (List Char)
  | [] => [[]]
  | c :: rest =>
    if c = separator then [] :: splitAt separator rest else pushFront c (splitAt separator rest)

/-- Whether a text holds a piece. -/
def holdsPiece (piece : List Char) : List Char → Bool
  | [] => piece.isEmpty
  | c :: rest => piece.isPrefixOf (c :: rest) || holdsPiece piece rest

/-- There is always a piece. -/
theorem splitAt_ne_nil (separator : Char) (cs : List Char) : splitAt separator cs ≠ [] := by
  cases cs with
  | nil => simp [splitAt]
  | cons c rest =>
    unfold splitAt
    split
    · simp
    · cases splitAt separator rest <;> simp [pushFront]

end Z80Workbench.Text
