import Z80Workbench.Text.Hex
import Z80Workbench.Text.Lines
import Z80Workbench.Walk.Run

/-!
# Z80Workbench.Walk.Report

The outcome of a walk as text.
-/

namespace Z80Workbench.Outcome

open Text

/-- A register with its value. -/
def field (name : String) (value : Nat) : String := name ++ "=" ++ hexPadded 4 value

/-- A flag with its value. -/
def flagField (name : String) (value : Bool) : String := name ++ "=" ++ if value then "1" else "0"

/-- A range of addresses. -/
def rangeText (range : Nat × Nat) : String :=
  "$" ++ hexPadded 4 range.1 ++ "-$" ++ hexPadded 4 range.2

/-- The lines of a report. -/
def reportLines (o : Outcome) : List String :=
  let regs := o.machine.registers
  let flags := o.machine.flags
  let last :=
    match o.lastLine with
    | some n => s!" (last line {n})"
    | none => ""
  let ranges := o.machine.video.usedRanges
  ["Status: " ++ o.status.text ++ " after " ++ toString o.steps ++ " steps" ++ last,
   " ".intercalate
     [field "AF" o.machine.af, field "BC" regs.bc, field "DE" regs.de, field "HL" regs.hl],
   " ".intercalate
     [field "IX" regs.ix, field "IY" regs.iy, field "SP" regs.sp, field "PC" regs.pc],
   "Flags: " ++ " ".intercalate
     [flagField "S" flags.s, flagField "Z" flags.z, flagField "PV" flags.pv,
      flagField "C" flags.c],
   "VRAM: " ++ if ranges.isEmpty then "empty" else ", ".intercalate (ranges.map rangeText)] ++
    if o.mayLoopForever then ["Warning: step limit reached, possible infinite loop"] else []

/-- Status, registers, flags and the use of video memory. -/
def report (o : Outcome) : String := joinLines o.reportLines

end Z80Workbench.Outcome
