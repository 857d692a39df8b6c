import Z80Workbench.Assembly.Aliasing
import Z80Workbench.Assembly.Image
import Z80Workbench.Assembly.Step
import Z80Workbench.Repeat

/-!
# Z80Workbench.Assembly.Analysis

The analysis of a source text: expansion of repeated blocks, layout, image, aliasing and steps.
Bad source never stops it; whatever is wrong ends up among the diagnostics.
-/

namespace Z80Workbench

open Text

/-! ## The cartridge header -/

namespace Cartridge

/-- Drops a character, given in both cases. -/
def skip? (small large : Char) : List Char → Option (List Char)
  | c :: rest => if c = small ∨ c = large then some rest else none
  | [] => none

/-- Whether a text starts with a byte of a cartridge header: the letters AB in quotes, or the
code of one of them in hexadecimal. -/
def startsWithMark : List Char → Bool
  | c :: a :: b :: rest =>
    if Expr.isQuote c then
      (a = 'A' || a = 'a') && (b = 'B' || b = 'b') && rest.head?.any Expr.isQuote
    else if c = '#' ∨ c = '$' then a = '4' && (b = '1' || b = '2')
    else c = '4' && (a = '1' || a = '2') && (b = 'H' || b = 'h')
  | _ => false

/-- Whether a text starts with a byte directive whose first byte is one of a header. -/
def startsWithHeader (text : List Char) : Bool :=
  match (skip? 'd' 'D' text).bind (skip? 'b' 'B') with
  | some rest => rest.head?.any isBlank && startsWithMark (trimStart rest)
  | none => false

/-- Whether a text holds a cartridge header at the start of a word; `inWord` says whether a word
goes on into the text. -/
def holdsHeader (inWord : Bool) : List Char → Bool
  | [] => false
  | c :: rest => (!inWord && startsWithHeader (c :: rest)) || holdsHeader (isWordChar c) rest

end Cartridge

/-! ## Analysis -/

/-- Everything known about a source text. -/
structure Analysis where
  expansion : Expansion
  layout : Layout
  image : Image
  findings : List AliasFinding
  steps : List Step

namespace Analysis

/-- Analyses a source text; `file` is its name in diagnostics. -/
def ofSource (settings : Settings) (source file : String) : Analysis :=
  let expansion := Repeat.expand settings source
  let lines := Source.parse expansion.text
  let layout := Layout.ofLines Firmware.address? lines
  { expansion
    layout
    image := Image.ofLayout Firmware.address? file layout
    findings := Aliasing.ofLayout layout
    steps := Step.ofLines ⟨layout.symbols, Firmware.address?⟩ lines }

/-- The expanded lines. -/
def lines (a : Analysis) : List String := a.expansion.lines.map (·.text)

/-- The input line that each expanded line comes from. -/
def origins (a : Analysis) : List Nat := a.expansion.lines.map (·.origin)

/-- The symbols. -/
def symbols (a : Analysis) : Symbols := a.layout.symbols

/-- The labels. -/
def labels (a : Analysis) : Labels := a.layout.labels

/-- The constants. -/
def constants (a : Analysis) : List Constant := a.layout.constants

/-- The memory image. -/
def memory (a : Analysis) : Memory := a.image.memory

/-- All diagnostics: those of the expansion first. -/
def diagnostics (a : Analysis) : Diagnostics :=
  ⟨a.expansion.errors ++ a.image.diagnostics.errors, a.image.diagnostics.warnings⟩

/-- Whether the source declares a cartridge header. -/
def holdsCartridgeHeader (a : Analysis) : Bool :=
  Cartridge.holdsHeader false a.expansion.text.toList

/-- The labels that mark where execution starts, by precedence. -/
def entryLabels : List String := ["ROM_HEADER", "START"]

/-- The line where execution starts: that of an entry label, or of the first step, or the first
line. -/
def entryLine (a : Analysis) : Nat :=
  (entryLabels.findSome? a.labels.get?).getD ((a.steps.head?.map (·.line)).getD 1)

end Analysis

end Z80Workbench
