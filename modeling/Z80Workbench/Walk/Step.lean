import Z80Workbench.Walk.Program

/-!
# Z80Workbench.Walk.Step

One step of a walk. A walk keeps its own stack of the lines to return to, next to the addresses
that the machine pushes.

A call without a line to go to is done at once: the machine makes the call, with the effects
that firmware routines have, and returns. A jump into the firmware returns to the caller, as the
routine at its end would, unless the walk skips such jumps.
-/

namespace Z80Workbench

/-- What a step leads to: the machine, the lines to return to, and the next line, or none if
the outermost routine has been left. -/
structure Move where
  machine : Machine
  returns : List Nat
  next : Option Nat

namespace Move

/-- Goes to a line. -/
def goto (machine : Machine) (returns : List Nat) (line : Nat) : Move :=
  ⟨machine, returns, some line⟩

/-- Goes to the line to return to, or leaves the outermost routine. -/
def leave (machine : Machine) : List Nat → Move
  | [] => ⟨machine, [], none⟩
  | line :: returns => ⟨machine, returns, some line⟩

end Move

namespace Program

/-- Executes the instruction of a line. -/
def executeLine (p : Program) (line : CodeLine) (m : Machine) : Except UnknownRegister Machine :=
  m.executeAt p.env line.instruction line.address

/-- The operand that a control transfer goes to. -/
def targetMode? (line : CodeLine) : Option Mode := line.instruction.target?.map (·.mode)

/-- Whether a destination lies in the firmware. -/
def isFirmware (p : Program) (d : Destination) : Bool :=
  d.address.any fun (address : Int) => address < p.settings.firmwareLimit

/-- A call or restart from a line. -/
def stepCall (p : Program) (number : Nat) (line : CodeLine) (m : Machine) (returns : List Nat) :
    Except UnknownRegister Move :=
  if m.flags.allow line.instruction.condition then do
    let destination := p.destination m (targetMode? line)
    let called ← p.executeLine line m
    return match destination.line with
      | some target => .goto called ((number + 1) :: returns) target
      | none => .goto (called.popPc p.env) returns (number + 1)
  else .ok (.goto m returns (number + 1))

/-- A return from a line. -/
def stepReturn (p : Program) (number : Nat) (line : CodeLine) (m : Machine) (returns : List Nat) :
    Except UnknownRegister Move :=
  if m.flags.allow line.instruction.condition then do
    return .leave (← p.executeLine line m) returns
  else .ok (.goto m returns (number + 1))

/-- A jump from a line; `tailCalls` says whether a jump into the firmware returns. -/
def stepJump (p : Program) (tailCalls : Bool) (number : Nat) (line : CodeLine) (m : Machine)
    (returns : List Nat) : Except UnknownRegister Move :=
  if m.flags.allow line.instruction.condition then do
    let destination := p.destination m (targetMode? line)
    let jumped ← p.executeLine line m
    return match destination.line with
      | some target => .goto jumped returns target
      | none =>
        if tailCalls && p.isFirmware destination then .leave (jumped.popPc p.env) returns
        else .goto jumped returns (number + 1)
  else .ok (.goto m returns (number + 1))

/-- A counted branch from a line: taken until B is used up. -/
def stepCount (p : Program) (number : Nat) (line : CodeLine) (m : Machine) (returns : List Nat) :
    Except UnknownRegister Move := do
  let counted ← p.executeLine line m
  if counted.registers.b = 0 then return .goto counted returns (number + 1)
  return .goto counted returns
    ((p.destination counted (targetMode? line)).line.getD (number + 1))

/-- A step from a line. -/
def step (p : Program) (tailCalls : Bool) (number : Nat) (line : CodeLine) (m : Machine)
    (returns : List Nat) : Except UnknownRegister Move :=
  match line.instruction.operation with
  | .mnemonic .call | .mnemonic .rst => p.stepCall number line m returns
  | .mnemonic .ret | .mnemonic .reti | .mnemonic .retn => p.stepReturn number line m returns
  | .mnemonic .jp | .mnemonic .jr => p.stepJump tailCalls number line m returns
  | .mnemonic .djnz => p.stepCount number line m returns
  | _ => do return .goto (← p.executeLine line m) returns (number + 1)

end Program

end Z80Workbench
