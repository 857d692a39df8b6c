import Z80Workbench.Assembly.Analysis
import Z80Workbench.Proofs.Machine.WellFormed
import Z80Workbench.Proofs.Walk.Moves
import Z80Workbench.Walk.Run

/-!
# Z80Workbench.Proofs.Walk.WellFormed

Well-formed machines stay so on every walk.  A step executes the instruction of its line and may
return from the firmware; both keep the machine well-formed, and the walks repeat steps.  Nothing
is asked of the symbols, whose values may be any integers, and of the image only that it holds
bytes, as every assembled image does.
-/

namespace Z80Workbench

/-! ## assembled images -/

namespace Image.Scan

variable {scan : Scan}

theorem wellFormed_next (wf : scan.memory.WellFormed) (placed : Placement × LineYield) :
    (scan.next placed).memory.WellFormed := by
  unfold next
  split
  · unfold store
    dsimp only
    split <;> exact wf.writeSlots _ _
  · exact wf

theorem wellFormed_foldl (wf : scan.memory.WellFormed) (placed : List (Placement × LineYield)) :
    (placed.foldl next scan).memory.WellFormed := by
  induction placed generalizing scan with
  | nil => exact wf
  | cons first rest ih => exact ih (wellFormed_next wf first)

end Image.Scan

theorem Image.wellFormed_memory (fallback : String → Option Int) (file : String)
    (layout : Layout) : (ofLayout fallback file layout).memory.WellFormed :=
  Scan.wellFormed_foldl .empty _

/-- An assembled image holds bytes at addresses. -/
theorem Analysis.wellFormed_memory (settings : Settings) (source file : String) :
    (ofSource settings source file).memory.WellFormed :=
  Image.wellFormed_memory _ _ _

namespace Program

variable {p : Program} {m : Machine}

/-! ## one step -/

section Step

variable {number : Nat} {line : CodeLine} {returns : List Nat} {move : Move}
  (wf : m.WellFormed) (hi : p.image.WellFormed)
include wf hi

theorem wellFormed_executeLine {n : Machine} (h : p.executeLine line m = .ok n) : n.WellFormed :=
  wf.executeAt hi h

/-- A step keeps the machine well-formed. -/
theorem wellFormed_step {tailCalls : Bool}
    (h : p.step tailCalls number line m returns = .ok move) : move.machine.WellFormed := by
  cases stepped_of_step h with
  | untaken => exact wf
  | entered _ _ hx _ | jumped _ _ hx _ | strayed _ _ hx _ _ | counted _ hx | passed _ _ hx =>
      exact wellFormed_executeLine wf hi hx
  | calledAtOnce _ _ hx _ => exact (wellFormed_executeLine wf hi hx).popPc
  | returned _ _ hx =>
      rw [Move.machine_leave]
      exact wellFormed_executeLine wf hi hx
  | tailCalled _ _ hx _ _ _ =>
      rw [Move.machine_leave]
      exact (wellFormed_executeLine wf hi hx).popPc

end Step

/-! ## runs -/

variable {o : Outcome}

/-- A walk keeps the machine well-formed, however it ends. -/
theorem wellFormed_walk (hi : p.image.WellFormed) {control : Control} {remaining : Nat}
    {w : Walker} (wf : w.machine.WellFormed) (h : p.walk control remaining w = .ok o) :
    o.machine.WellFormed := by
  induction remaining generalizing w with
  | zero =>
      unfold walk at h
      split at h
      · cases h; exact wf
      · split at h <;> cases h <;> exact wf
  | succ remaining ih =>
      unfold walk at h
      split at h
      case h_1 => cases h; exact wf
      case h_2 number line hx =>
          split at h
          · cases h; exact wf
          dsimp only at h
          split at h
          · cases h; exact wf
          split at h
          case h_1 => cases h
          case h_2 hs => cases h; exact wellFormed_step wf hi hs
          case h_3 hs => exact ih (wellFormed_step wf hi hs) h

/-- So does a walk through a counted loop. -/
theorem wellFormed_walkLoop (hi : p.image.WellFormed) {cancelled : Bool} {remaining : Nat}
    {loop : CountedLoop} {w : Walker} (wf : w.machine.WellFormed)
    (h : p.walkLoop cancelled remaining loop w = .ok o) : o.machine.WellFormed := by
  induction remaining generalizing loop w with
  | zero =>
      unfold walkLoop at h
      split at h
      · cases h; exact wf
      · split at h <;> cases h <;> exact wf
  | succ remaining ih =>
      unfold walkLoop at h
      split at h
      case h_1 => cases h; exact wf
      case h_2 number line hx =>
          split at h
          · cases h; exact wf
          dsimp only at h
          split at h
          · have counted := wf.set8 .b (Arithmetic.decrement w.machine.registers.b)
            split at h
            · cases h; exact counted
            · exact ih counted h
          split at h
          case h_1 => cases h
          case h_2 hs => cases h; exact wellFormed_step wf hi hs
          case h_3 hs => exact ih (wellFormed_step wf hi hs) h

theorem wellFormed_runSubroutine (hi : p.image.WellFormed) (wf : m.WellFormed) {start : Start}
    {limit : Option Nat} {control : Control}
    (h : p.runSubroutine start m limit control = .ok o) : o.machine.WellFormed := by
  unfold runSubroutine at h
  split at h
  · cases h; exact wf
  · exact wellFormed_walk hi wf h

theorem wellFormed_runLoop (hi : p.image.WellFormed) (wf : m.WellFormed) {branch : Nat}
    {label : String} {limit : Option Nat} {cancelled : Bool}
    (h : p.runLoop branch label m limit cancelled = .ok o) : o.machine.WellFormed := by
  unfold runLoop at h
  split at h
  · split at h
    · split at h
      · cases h; exact wf
      · exact wellFormed_walkLoop hi wf h
    · cases h; exact wf
  · cases h; exact wf

/-- The machines that a line of text and the runs of a program lead to are well-formed if the
machine they start from is. -/
theorem runs_wellFormed (env : Machine.Env) (he : env.image.WellFormed) (hi : p.image.WellFormed)
    (wf : m.WellFormed) :
    (∀ text address n, m.runText env text address = .ok n → n.WellFormed) ∧
    (∀ start limit control o, p.runSubroutine start m limit control = .ok o →
      o.machine.WellFormed) ∧
    (∀ branch label limit cancelled o, p.runLoop branch label m limit cancelled = .ok o →
      o.machine.WellFormed) ∧
    ∀ start limit cancelled o, p.lookAhead start m limit cancelled = .ok o →
      o.machine.WellFormed := by
  refine ⟨?line, ?routine, ?loop, ?ahead⟩
  case line =>
      intro text address n h
      exact wf.runText he h
  case routine =>
      intro start limit control o h
      exact wellFormed_runSubroutine hi wf h
  case loop =>
      intro branch label limit cancelled o h
      exact wellFormed_runLoop hi wf h
  case ahead =>
      intro start limit cancelled o h
      exact wellFormed_runSubroutine hi wf h

/-- Two passes of a loop that writes the video chip, on a fresh machine. -/
theorem runs_wellFormed_twice :
    ∃ o, (ofLines {} ["LOOP: OUT ($98),A", "OR $80", "DJNZ LOOP"] (.ofList [("LOOP", 1)]) ∅ ∅
        []).runLoop 3 "loop" ((Machine.initial {}).set8 .b 2) none false = .ok o ∧
      o.machine.WellFormed := by
  have start := (Machine.WellFormed.initial {}).set8 .b 2
  refine (exists_of_toBool ?ends).imp fun o h =>
    ⟨h, (runs_wellFormed ⟨⟨∅, Firmware.address?⟩, ∅⟩ .empty ?image start).2.2.1 _ _ _ _ o h⟩
  case ends => decide +kernel
  case image => exact .empty

end Program

end Z80Workbench
