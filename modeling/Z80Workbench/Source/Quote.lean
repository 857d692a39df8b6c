import Z80Workbench.Expr.Literal
import Z80Workbench.Text.Split

/-!
# Z80Workbench.Source.Quote

Quotes in source lines: comments start, and operands are split, outside quotes only.

Instruction operands and data operands are split by different rules. Between instruction
operands, commas inside parentheses do not split, and an apostrophe directly after the letters
AF names the shadow register instead of opening a quote. Data operands know neither rule.
-/

namespace Z80Workbench.Source

open Text
open Z80Workbench.Expr (isQuote)

/-- A character and whether it lies outside quotes. -/
structure Marked where
  char : Char
  outside : Bool
  deriving DecidableEq

/-- Whether two characters spell the accumulator and flags pair. -/
def spellsAf (p q : Char) : Bool := (p = 'A' || p = 'a') && (q = 'F' || q = 'f')

/-- Marks the characters of a text that follows the characters `p` and `q`, inside the given
quote if there is one. -/
def marksFrom (quote : Option Char) (p q : Char) : List Char → List Marked
  | [] => []
  | c :: rest =>
    match quote with
    | some mark => ⟨c, false⟩ :: marksFrom (if c = mark then none else some mark) q c rest
    | none =>
      if isQuote c && !(c = '\'' && spellsAf p q) then ⟨c, false⟩ :: marksFrom (some c) q c rest
      else ⟨c, true⟩ :: marksFrom none q c rest

/-- Marks the characters of a text. -/
def marks (text : List Char) : List Marked :=
  marksFrom none ' ' ' ' text

/-- Removes the comment, which starts at the first semicolon outside quotes, and the white
space around what is left. -/
def stripComment (text : List Char) : List Char :=
  trim (((marks text).takeWhile fun m => !(m.outside && m.char = ';')).map (·.char))

/-- Splits marked text at the commas outside quotes and parentheses; `depth` parentheses are
open in front of it. -/
def operandPieces (depth : Nat) : List Marked → List (List Char)
  | [] => [[]]
  | ⟨c, outside⟩ :: rest =>
    if outside && c = ',' && depth = 0 then [] :: operandPieces depth rest
    else
      let inner :=
        if outside && c = '(' then depth + 1
        else if outside && c = ')' then depth - 1
        else depth
      pushFront c (operandPieces inner rest)

/-- The operands of an instruction; a blank text has none. -/
def splitOperands (text : List Char) : List (List Char) :=
  if trim text = [] then [] else (operandPieces 0 (marks text)).map trim

/-- Splits text at the commas outside quotes; `quote` is the mark it starts inside of. -/
def dataPieces (quote : Option Char) : List Char → List (List Char)
  | [] => [[]]
  | c :: rest =>
    match quote with
    | some mark => pushFront c (dataPieces (if c = mark then none else some mark) rest)
    | none =>
      if isQuote c then pushFront c (dataPieces (some c) rest)
      else if c = ',' then [] :: dataPieces none rest
      else pushFront c (dataPieces none rest)

/-- The operands of a data directive; there is always at least one. -/
def splitData (text : List Char) : List (List Char) :=
  (dataPieces none text).map trim

/-- The characters of a quoted text: one that starts and ends with the same quotation mark. -/
def quotedText? (token : List Char) : Option (List Char) :=
  match token with
  | [] => none
  | opening :: rest =>
    if isQuote opening && rest.getLast? = some opening then some rest.dropLast else none

@[simp] theorem marksFrom_nil (quote : Option Char) (p q : Char) : marksFrom quote p q [] = [] :=
  rfl

/-- Marking keeps every character. -/
theorem map_char_marksFrom (quote : Option Char) (p q : Char) (text : List Char) :
    (marksFrom quote p q text).map (·.char) = text := by
  induction text generalizing quote p q with
  | nil => rfl
  | cons c rest ih =>
    cases quote with
    | some mark => simp [marksFrom, ih]
    | none =>
      simp only [marksFrom]
      split <;> simp [ih]

/-- Marking keeps every character of the whole text. -/
theorem map_char_marks (text : List Char) : (marks text).map (·.char) = text :=
  map_char_marksFrom none ' ' ' ' text

end Z80Workbench.Source
