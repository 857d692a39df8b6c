import Z80Workbench.Text.Integer

/-!
# Z80Workbench.Settings

Limits and defaults of the workbench, and how the environment changes them. The limits on walks
count executed lines; they are what stops a program that never returns.
-/

namespace Z80Workbench

/-- Limits and machine defaults. -/
structure Settings where
  subroutineLimit : Nat := 50000
  loopLimit : Nat := 500000
  lookaheadLimit : Nat := 2000
  stackTop : Nat := 0xF380
  firmwareLimit : Nat := 0x4000
  repeatDepth : Nat := 100
  repeatCount : Nat := 65536
  deriving Repr, DecidableEq

namespace Settings

/-- The settings without any change. -/
def default : Settings := {}

/-- A number from the environment; a text that is none, or is negative, is ignored. -/
def natural? (environment : String → Option String) (name : String) : Option Nat :=
  match (environment name).bind Text.markedInteger? with
  | some (.ofNat n) => some n
  | _ => none

/-- The settings that the environment asks for. -/
def ofEnvironment (environment : String → Option String) : Settings :=
  let setting (name : String) (usual : Nat) := (natural? environment name).getD usual
  { default with
    subroutineLimit := setting "MSX_SDK_MAX_STEPS" default.subroutineLimit
    loopLimit := setting "MSX_SDK_MAX_LOOP_STEPS" default.loopLimit
    lookaheadLimit := setting "MSX_SDK_LOOKAHEAD_STEPS" default.lookaheadLimit
    stackTop := setting "MSX_SDK_STACK" default.stackTop % 65536 }

end Settings

end Z80Workbench
