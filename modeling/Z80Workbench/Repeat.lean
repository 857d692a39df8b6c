import Z80Workbench.Diagnostic
import Z80Workbench.Expr.Basic
import Z80Workbench.Settings
import Z80Workbench.Source.Line

/-!
# Z80Workbench.Repeat

Expansion of repeated blocks.

```
    REPEAT 32*3
        DB 0
    ENDR
```

A round copies the body of every outermost block as often as its count says; rounds go on until
no block is left or their limit is reached. Labels at either end of a block stay, on lines of
their own. Each line keeps the number of the input line that it comes from.
-/

namespace Z80Workbench

open Text Source

/-- A line of text and the number of the input line that it comes from. -/
structure OriginLine where
  text : String
  origin : Nat
  deriving Repr, DecidableEq

/-- The result of an expansion. -/
structure Expansion where
  lines : List OriginLine
  rounds : Nat
  errors : List Diagnostic
  deriving Repr, DecidableEq

namespace Expansion

/-- The expanded text. -/
def text (e : Expansion) : String := joinLines (e.lines.map (·.text))

end Expansion

namespace Repeat

/-- What a line means for blocks. -/
inductive Marker where
  | opening (labels : List String) (count : String)
  | closing (labels : List String)
  | plain
  deriving Repr, DecidableEq

/-- The meaning of a line for blocks. -/
def marker (text : String) : Marker :=
  match parseLine? 1 text with
  | none => .plain
  | some line =>
    match line.directive? with
    | some .repeatBegin | some .reptBegin => .opening line.labels line.args
    | some .repeatEnd => .closing line.labels
    | _ => .plain

/-- The line that keeps the labels at an end of a block. -/
def labelLine (labels : List String) : String :=
  " ".intercalate (labels.map (· ++ ":"))

/-- The label line of a marker, if it has labels, at the marker's origin. -/
def keptLabels (labels : List String) (origin : Nat) : List OriginLine :=
  if labels.isEmpty then [] else [⟨labelLine labels, origin⟩]

/-- Adds the constant that a line defines, if its value follows from those before it. -/
def addConstant (constants : Symbols) (text : String) : Symbols :=
  match parseLine? 1 text with
  | some line =>
    if line.operation = some (.directive .equ) then
      match (Expr.ofString line.args).value? { symbols := constants } with
      | some value => line.labels.foldl (fun table label => table.insert label value) constants
      | none => constants
    else constants
  | none => constants

/-- The constants whose values follow from literals and earlier constants alone. -/
def constants (lines : List String) : Symbols :=
  lines.foldl addConstant ∅

/-- A block whose end has not been met: where it starts, how often it is repeated, how many
blocks are open inside it, and its lines so far, latest first. -/
structure OpenBlock where
  origin : Nat
  copies : Nat
  depth : Nat
  body : List OriginLine

/-- A round in progress: the lines so far, latest first, the open block, whether anything has
changed, and the errors, latest first. -/
structure Round where
  output : List OriginLine
  block : Option OpenBlock
  changed : Bool
  errors : List Diagnostic

namespace Round

/-- A round before its first line. -/
def start : Round := ⟨[], none, false, []⟩

/-- The place of an error in a block. -/
def place (origin : Nat) : Option Location := some ⟨"<input>", origin, 0⟩

/-- Opens a block; an unknown count is an error and stands for one copy. -/
def openBlock (round : Round) (settings : Settings) (constants : Symbols) (labels : List String)
    (count : String) (origin : Nat) : Round :=
  let output := keptLabels labels origin ++ round.output
  match (Expr.ofString count).value? { symbols := constants } with
  | some n => ⟨output, some ⟨origin, min n settings.repeatCount, 0, []⟩, true, round.errors⟩
  | none =>
    let error := { cause := .repeatCount count, location := place origin : Diagnostic }
    ⟨output, some ⟨origin, 1, 0, []⟩, true, error :: round.errors⟩

/-- Writes the copies of a block. -/
def copyBlock (round : Round) (block : OpenBlock) : Round :=
  { round with
    output := (List.replicate block.copies block.body).flatten ++ round.output
    block := none }

/-- Takes the next line. A closing marker outside all blocks is dropped, except for its
labels. -/
def next (settings : Settings) (constants : Symbols) (round : Round) (line : OriginLine) : Round :=
  match round.block, marker line.text with
  | none, .opening labels count =>
    round.openBlock settings constants labels count line.origin
  | none, .closing labels =>
    { round with output := keptLabels labels line.origin ++ round.output, changed := true }
  | none, .plain => { round with output := line :: round.output }
  | some block, .opening _ _ =>
    { round with
      block := some { block with depth := block.depth + 1, body := line :: block.body } }
  | some block, .closing labels =>
    if block.depth = 0 then
      let copied := round.copyBlock block
      { copied with output := keptLabels labels line.origin ++ copied.output }
    else
      { round with
        block := some { block with depth := block.depth - 1, body := line :: block.body } }
  | some block, .plain =>
    { round with block := some { block with body := line :: block.body } }

/-- Ends a round; a block without an end is an error and reaches to the last line. -/
def finish (round : Round) : Round :=
  match round.block with
  | none => round
  | some block =>
    let copied := round.copyBlock block
    { copied with
      errors := { cause := .openRepeat, location := place block.origin } :: copied.errors }

end Round

/-- Expands every outermost block once. -/
def expandOnce (settings : Settings) (constants : Symbols) (lines : List OriginLine) : Round :=
  (lines.foldl (Round.next settings constants) Round.start).finish

/-- Expands until nothing changes, for at most `fuel` more rounds. -/
def expandRounds (settings : Settings) (constants : Symbols) :
    (fuel : Nat) → Expansion → Expansion
  | 0, e => e
  | fuel + 1, e =>
    let round := expandOnce settings constants e.lines
    if round.changed then
      expandRounds settings constants fuel
        ⟨round.output.reverse, e.rounds + 1, e.errors ++ round.errors.reverse⟩
    else e

/-- Expands the blocks of a source text. -/
def expand (settings : Settings) (source : String) : Expansion :=
  let lines := linesOf source
  let numbered := (lines.zipIdx 1).map fun (text, number) => (⟨text, number⟩ : OriginLine)
  expandRounds settings (constants lines) settings.repeatDepth ⟨numbered, 0, []⟩

end Repeat

end Z80Workbench
