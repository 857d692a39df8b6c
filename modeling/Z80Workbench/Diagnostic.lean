import Z80Workbench.Text.Blank
import Z80Workbench.Text.Hex
import Z80Workbench.Text.Lines

/-!
# Z80Workbench.Diagnostic

Errors of the assembler: their causes, the text of each, and reports.

```
game.asm:15:10: error: undefined symbol 'WRTVMR'
    CALL WRTVMR
             ^
hint: did you mean 'WRTVRM'?
```
-/

namespace Z80Workbench

open Text

/-- A place in a source text. Lines and columns count from one; column zero is unknown. -/
structure Location where
  file : String
  line : Int
  column : Int := 0
  deriving Repr, DecidableEq

/-- The families of errors. -/
inductive ErrorFamily where
  | general | undefinedSymbol | addressingMode | branchRange | expression | repeatBlock
  deriving Repr, DecidableEq

/-- What is wrong. -/
inductive Cause where
  | stated (family : ErrorFamily) (message : String)
  | undefinedSymbol (symbol : String) (similar : List String)
  | unsupportedOperands (word operands : String)
  | branchRange (target : String) (distance : Int)
  | unresolved (expression : String)
  | offsetRange (offset : Int)
  | bitRange (number : Nat)
  | restartVector (vector : Nat)
  | interruptMode (mode : Nat)
  | repeatCount (expression : String)
  | openRepeat
  deriving Repr, DecidableEq

namespace Cause

/-- The family of a cause. -/
def family : Cause → ErrorFamily
  | stated f _ => f
  | undefinedSymbol _ _ => .undefinedSymbol
  | unsupportedOperands _ _ => .addressingMode
  | branchRange _ _ => .branchRange
  | unresolved _ | offsetRange _ | bitRange _ | restartVector _ | interruptMode _ => .expression
  | repeatCount _ | openRepeat => .repeatBlock

/-- A cause in words. -/
def message : Cause → String
  | stated _ text => text
  | undefinedSymbol symbol _ => s!"undefined symbol '{symbol}'"
  | unsupportedOperands word operands =>
    let shape := trimString (word ++ " " ++ operands)
    s!"cannot encode '{shape}': unsupported operand combination"
  | branchRange target distance =>
    s!"relative jump target '{target}' is out of range (offset: {distance})"
  | unresolved expression => s!"cannot evaluate '{expression}'"
  | offsetRange offset => s!"index displacement {offset} out of range"
  | bitRange number => s!"bit number {number} out of range"
  | restartVector vector => "invalid RST vector $" ++ hexPadded 2 vector
  | interruptMode mode => s!"invalid interrupt mode {mode}"
  | repeatCount expression =>
    s!"cannot resolve REPEAT count '{expression}', expanding once"
  | openRepeat => "REPEAT without matching ENDR"

/-- How a cause might be mended; at most three similar names are offered. -/
def hint? : Cause → Option String
  | undefinedSymbol _ similar =>
    if similar.isEmpty then none
    else
      let names := ", ".intercalate ((similar.take 3).map fun name => "'" ++ name ++ "'")
      some s!"did you mean {names}?"
  | branchRange _ distance =>
    let direction := if 0 < distance then "forward" else "backward"
    some <| s!"displacement is {distance}, but range is -128 to +127; " ++
      s!"consider JP for {direction} references"
  | offsetRange _ => some "displacement must be between -128 and +127"
  | bitRange _ => some "bit number must be between 0 and 7"
  | restartVector _ => some "RST takes one of $00, $08, $10, ... $38"
  | interruptMode _ => some "IM takes 0, 1 or 2"
  | openRepeat => some "add ENDR after the repeated lines"
  | _ => none

end Cause

/-- An error: its cause, where it is, the source line there, and advice of its own. -/
structure Diagnostic where
  cause : Cause
  location : Option Location := none
  sourceLine : Option String := none
  advice : Option String := none
  deriving Repr, DecidableEq

namespace Diagnostic

/-- The advice given with the error, or else what its cause suggests. -/
def hint? (d : Diagnostic) : Option String :=
  (d.advice.filter (· ≠ "")).or d.cause.hint?

/-- The place of an error, as the start of its first line. -/
def Location.lead (place : Location) : String :=
  s!"{place.file}:{place.line}:{place.column}: "

/-- The source line of an error and a mark below its column. -/
def excerpt (d : Diagnostic) : List String :=
  match d.sourceLine, d.location with
  | some line, some place =>
    ("    " ++ line) ::
      (if 0 < place.column then
        [String.ofList (List.replicate (place.column.toNat + 3) ' ') ++ "^"]
      else [])
  | _, _ => []

/-- An error as text. -/
def text (d : Diagnostic) : String :=
  let lead := (d.location.map Location.lead).getD ""
  let hints := (d.hint?.map fun hint => "hint: " ++ hint).toList
  joinLines ((lead ++ "error: " ++ d.cause.message) :: d.excerpt ++ hints)

end Diagnostic

/-! ## Collected diagnostics -/

/-- The errors and warnings found in a source, in the order of their discovery. -/
structure Diagnostics where
  errors : List Diagnostic
  warnings : List String
  deriving Repr, DecidableEq

namespace Diagnostics

/-- Nothing found. -/
def none : Diagnostics := ⟨[], []⟩

/-- Adds an error. -/
def add (ds : Diagnostics) (d : Diagnostic) : Diagnostics :=
  { ds with errors := ds.errors ++ [d] }

/-- Adds a warning. -/
def warn (ds : Diagnostics) (message : String) : Diagnostics :=
  { ds with warnings := ds.warnings ++ [message] }

/-- Errors and warnings one after the other. -/
def messages (ds : Diagnostics) : List String :=
  ds.errors.map Diagnostic.text ++ ds.warnings.map ("warning: " ++ ·)

/-- A number of things in words. -/
def counted (n : Nat) (thing : String) : String :=
  s!"{n} {thing}" ++ if n = 1 then "" else "s"

/-- All errors and warnings with their numbers. -/
def report (ds : Diagnostics) : String :=
  let errors := ds.errors.flatMap fun d => [d.text, ""]
  let warnings :=
    if ds.warnings.isEmpty then [] else "Warnings:" :: ds.warnings.map ("  " ++ ·)
  let total := counted ds.errors.length "error" ++ ", " ++ counted ds.warnings.length "warning"
  joinLines (errors ++ warnings ++ ["\n" ++ total])

end Diagnostics

end Z80Workbench
