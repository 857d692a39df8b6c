import Z80Workbench.Isa.Mnemonic
import Z80Workbench.Source.Quote
import Z80Workbench.Text.Letter
import Z80Workbench.Text.Lines

/-!
# Z80Workbench.Source.Line

Source lines: labels, an operation and its operand text.

```
START:  LD   A, 10       ; colon label, instruction, operands, comment
ONE: TWO: NOP            ; colon labels may be chained
BUFFER  DS   16          ; bare label in front of a known word
LOOP                     ; bare label alone on its line
```

A word that is no part of the language is a label if a known word follows it. Otherwise it is
kept as an unknown operation, so that later stages can report it.
-/

namespace Z80Workbench

/-- A source line that is neither blank nor a mere comment. Labels and unknown words are in
capital letters; the operand text holds no comment. -/
structure SourceLine where
  number : Nat
  text : String
  labels : List String
  operation : Option Operation
  args : String
  deriving Repr, DecidableEq

namespace Source

open Text

/-- A character that a colon label can start with. -/
def startsLabel (c : Char) : Bool :=
  c.isAlpha || c = '_' || c = '.' || c = '@' || c = '?'

/-- A character that a colon label can go on with. -/
def continuesLabel (c : Char) : Bool :=
  isWordChar c || c = '.' || c = '@' || c = '?' || c = '$'

/-- Whether a text is an identifier, which is what a colon label is. -/
def isIdentifier : List Char → Bool
  | [] => false
  | c :: rest => startsLabel c && rest.all continuesLabel

/-- Drops one or two colons and the white space behind them. -/
def afterColon? : List Char → Option (List Char)
  | ':' :: ':' :: rest => some (trimStart rest)
  | ':' :: rest => some (trimStart rest)
  | _ => none

/-- Takes a colon label off the front of a text. -/
def colonLabel? : List Char → Option (List Char × List Char)
  | [] => none
  | c :: rest =>
    if startsLabel c then
      (afterColon? (rest.dropWhile continuesLabel)).map fun after =>
        (c :: rest.takeWhile continuesLabel, after)
    else none

theorem length_trimStart_le (cs : List Char) : (trimStart cs).length ≤ cs.length := by
  simpa [trimStart] using (List.dropWhile_suffix _).length_le

theorem length_afterColon {cs rest : List Char} (h : afterColon? cs = some rest) :
    rest.length < cs.length := by
  unfold afterColon? at h
  split at h
  · cases h
    have := length_trimStart_le ‹List Char›
    simp only [List.length_cons]; omega
  · cases h
    have := length_trimStart_le ‹List Char›
    simp only [List.length_cons]; omega
  · simp at h

/-- A text is shorter without its first label. -/
theorem length_colonLabel {cs label rest : List Char} (h : colonLabel? cs = some (label, rest)) :
    rest.length < cs.length := by
  cases cs with
  | nil => simp [colonLabel?] at h
  | cons c cs =>
    simp only [colonLabel?] at h
    split at h
    · obtain ⟨after, ha, he⟩ := Option.map_eq_some_iff.1 h
      cases he
      have h1 := length_afterColon ha
      have h2 := (List.dropWhile_suffix (l := cs) continuesLabel).length_le
      simp only [List.length_cons]; omega
    · simp at h

/-- Takes all colon labels off the front of a text. -/
def colonLabels (cs : List Char) : List (List Char) × List Char :=
  match _h : colonLabel? cs with
  | none => ([], cs)
  | some (label, rest) =>
    let more := colonLabels rest
    (label :: more.1, more.2)
termination_by cs.length
decreasing_by exact length_colonLabel _h

/-- The operation of a word in any letter case. -/
def operationOf (word : List Char) : Operation :=
  Operation.ofWord (String.ofList (upper word))

/-- What a line holds behind its colon labels: a bare label, an operation, and operands. -/
structure Statement where
  label : Option (List Char)
  operation : Option Operation
  args : List Char

/-- Reads what follows the colon labels of a line. After a colon label, a single word is an
operation even if it is unknown. -/
def statement (labelled : Bool) (cs : List Char) : Statement :=
  match cs with
  | [] => ⟨none, none, []⟩
  | _ =>
    let (first, rest) := headWord cs
    let operation := operationOf first
    if operation.isKnown then ⟨none, some operation, rest⟩
    else if rest ≠ [] then
      let (second, more) := headWord rest
      let behind := operationOf second
      if behind.isKnown then ⟨some first, some behind, more⟩ else ⟨none, some operation, rest⟩
    else if labelled then ⟨none, some operation, []⟩
    else ⟨some first, none, []⟩

/-- Reads a line; blank lines and comments are none. -/
def parseLine? (number : Nat) (text : String) : Option SourceLine :=
  match stripComment text.toList with
  | [] => none
  | cs =>
    let (labels, rest) := colonLabels cs
    let found := statement (labels ≠ []) rest
    some
      { number
        text
        labels := (labels ++ found.label.toList).map fun label => String.ofList (upper label)
        operation := found.operation
        args := String.ofList found.args }

/-- Reads the lines of a list of texts, numbered from the given number on. -/
def parseLines (first : Nat) (texts : List String) : List SourceLine :=
  (texts.zipIdx first).filterMap fun (text, number) => parseLine? number text

/-- Reads all lines of a source text, numbered from one. -/
def parse (text : String) : List SourceLine :=
  parseLines 1 (linesOf text)

end Source

namespace SourceLine

/-- The word of the operation; empty if there is none. -/
def word (line : SourceLine) : String :=
  (line.operation.map Operation.word).getD ""

/-- Whether the line holds an instruction or an unknown word. -/
def isExecutable (line : SourceLine) : Bool :=
  line.operation.any Operation.isExecutable

/-- Whether the line holds an instruction. -/
def isInstruction (line : SourceLine) : Bool :=
  line.operation.any fun
    | .mnemonic _ => true
    | _ => false

/-- The directive of the line. -/
def directive? (line : SourceLine) : Option Directive :=
  match line.operation with
  | some (.directive d) => some d
  | _ => none

end SourceLine

end Z80Workbench
