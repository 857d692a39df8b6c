/-!
# Z80Workbench.Text.Terminal

Control sequences of terminals, such as those for colours: an escape character and an opening
bracket, then parameters, then a letter that ends the sequence. What a command prints holds
none, so that it reads the same in a file.
-/

namespace Z80Workbench.Text

/-- The character that starts a control sequence. -/
def escapeChar : Char := Char.ofNat 0x1B

/-- A parameter character of a control sequence. -/
def isParameter (c : Char) : Bool := c.isDigit || c = ';' || c = '?'

/-- A text read so far: the characters that are kept, and those that may turn out to belong to
a control sequence, both latest first. -/
structure ControlScan where
  kept : List Char
  pending : List Char

namespace ControlScan

/-- Nothing read. -/
def start : ControlScan := ⟨[], []⟩

/-- Everything read that is no complete control sequence. -/
def all (scan : ControlScan) : List Char := scan.pending ++ scan.kept

/-- Takes a character that goes on with no control sequence. -/
def restart (kept : List Char) (c : Char) : ControlScan :=
  if c = escapeChar then ⟨kept, [c]⟩ else ⟨c :: kept, []⟩

/-- Takes the next character. -/
def next (scan : ControlScan) (c : Char) : ControlScan :=
  match scan.pending with
  | [] => restart scan.kept c
  | [e] => if c = '[' then ⟨scan.kept, [c, e]⟩ else restart scan.all c
  | pending =>
    if isParameter c then ⟨scan.kept, c :: pending⟩
    else if c.isAlpha then ⟨scan.kept, []⟩
    else restart scan.all c

end ControlScan

/-- A text without its control sequences. -/
def withoutControls (cs : List Char) : List Char :=
  (cs.foldl ControlScan.next ControlScan.start).all.reverse

/-- A string without its control sequences. -/
def plainString (s : String) : String := String.ofList (withoutControls s.toList)

@[simp] theorem withoutControls_nil : withoutControls [] = [] := rfl

/-- A text without escape characters stays as it is. -/
theorem foldl_next_of_no_escape (kept cs : List Char) (h : escapeChar ∉ cs) :
    cs.foldl ControlScan.next ⟨kept, []⟩ = ⟨cs.reverse ++ kept, []⟩ := by
  induction cs generalizing kept with
  | nil => rfl
  | cons c rest ih =>
    have hc : c ≠ escapeChar := fun e => h (by simp [e])
    have hr : escapeChar ∉ rest := fun m => h (by simp [m])
    simp [ControlScan.next, ControlScan.restart, hc, ih _ hr]

/-- A text without escape characters holds no control sequence. -/
theorem withoutControls_of_no_escape {cs : List Char} (h : escapeChar ∉ cs) :
    withoutControls cs = cs := by
  simp [withoutControls, ControlScan.start, foldl_next_of_no_escape [] cs h, ControlScan.all]

end Z80Workbench.Text
