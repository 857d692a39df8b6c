/-!
# Z80Workbench.Text.Similar

Names close to a misspelt one. Two texts are compared by their matching blocks: the longest
common piece, then the longest common pieces to its left and to its right, and so on. Their
likeness is twice the number of matched characters over the sum of the lengths, and a name is
close when its likeness is at least three fifths.

In a long target, characters that occur often start no match; they only extend one.
-/

namespace Z80Workbench.Text.Similar

/-- A common piece of two texts: where it starts in each, and its size. -/
structure Piece where
  left : Nat
  right : Nat
  size : Nat

/-- The sizes of the common pieces that end at one character of the left text, one for each
character of the right text, from the sizes at the character before it. -/
def endSizes (starts : Char → Bool) (a : Char) : (previous : Nat) → List Char → List Nat → List Nat
  | _, [], _ => []
  | previous, b :: bs, sizes =>
    (if a = b ∧ starts b then previous + 1 else 0) ::
      endSizes starts a (sizes.headD 0) bs sizes.tail

/-- Keeps the longer of the best piece so far and the pieces that end at left position `i`;
among equals the first found. -/
def improve (i : Nat) : (j : Nat) → List Nat → Piece → Piece
  | _, [], best => best
  | j, size :: sizes, best =>
    improve i (j + 1) sizes
      (if best.size < size then ⟨i + 1 - size, j + 1 - size, size⟩ else best)

/-- The longest common piece among those that end at left position `i` or later. -/
def longestFrom (starts : Char → Bool) (bs : List Char) :
    (i : Nat) → List Char → List Nat → Piece → Piece
  | _, [], _, best => best
  | i, a :: rest, sizes, best =>
    let next := endSizes starts a 0 bs sizes
    longestFrom starts bs (i + 1) rest next (improve i 0 next best)

/-- The number of equal characters two texts start with. -/
def commonPrefixLength : List Char → List Char → Nat
  | a :: as, b :: bs => if a = b then commonPrefixLength as bs + 1 else 0
  | _, _ => 0

/-- The longest common piece, earliest in the left text and then in the right one, extended at
both ends by characters that start no match. -/
def longest (starts : Char → Bool) (as bs : List Char) : Piece :=
  let best := longestFrom starts bs 0 as [] ⟨0, 0, 0⟩
  let back := commonPrefixLength (as.take best.left).reverse (bs.take best.right).reverse
  let onward :=
    commonPrefixLength (as.drop (best.left + best.size)) (bs.drop (best.right + best.size))
  ⟨best.left - back, best.right - back, back + best.size + onward⟩

/-- The number of characters in the matching blocks of two texts. -/
def matched (starts : Char → Bool) (as bs : List Char) : Nat :=
  match longest starts as bs with
  | ⟨left, right, size⟩ =>
    if _h : 0 < size ∧ left + size ≤ as.length then
      size + matched starts (as.take left) (bs.take right) +
        matched starts (as.drop (left + size)) (bs.drop (right + size))
    else 0
termination_by as.length
decreasing_by
  all_goals simp only [List.length_take, List.length_drop]; omega

/-- The characters of a target that may start a match: all of a short target, and of one of two
hundred characters or more those that occur at most once in a hundred places and once more. -/
def mayStart (target : List Char) (c : Char) : Bool :=
  target.length < 200 || target.count c ≤ target.length / 100 + 1

/-- A name with the number of characters it shares with the target and the sum of lengths. -/
structure Candidate where
  name : String
  matched : Nat
  total : Nat

namespace Candidate

/-- Compares a name with a target. -/
def ofName (target : List Char) (name : String) : Candidate :=
  let cs := name.toList
  ⟨name, Similar.matched (mayStart target) cs target, cs.length + target.length⟩

/-- At least three fifths alike; two empty texts are alike. -/
def isClose (c : Candidate) : Bool :=
  3 * c.total ≤ 10 * c.matched

/-- More alike, or equally alike and later in the order of names. -/
def precedes (c d : Candidate) : Bool :=
  let left := c.matched * d.total
  let right := d.matched * c.total
  right < left || (left == right && d.name < c.name)

end Candidate

/-- The names closest to a target, best first, at most `count` of them. -/
def closest (count : Nat) (target : String) (names : List String) : List String :=
  let candidates := (names.map (Candidate.ofName target.toList)).filter Candidate.isClose
  ((candidates.mergeSort fun c d => !d.precedes c).take count).map (·.name)

end Z80Workbench.Text.Similar
