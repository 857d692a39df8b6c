import Z80Workbench.Firmware
import Z80Workbench.Proofs.Expr.Growth
import Z80Workbench.Proofs.Text.Capital

/-!
# Z80Workbench.Proofs.Firmware

The firmware's names as a resolver of expressions.  Names are looked up in capital letters and
with dots as underscores, so more spellings are known than are listed; of those that an
expression can hold, all are identifiers.
-/

namespace Z80Workbench.Firmware

open Text
open Source (isIdentifier startsLabel continuesLabel)

/-- The listed names are identifiers in ASCII. -/
theorem name_row : ∀ e ∈ entries, e.name.toList.head?.any startsLabel ∧
    ∀ c ∈ e.name.toList, c.toNat < 128 ∧ continuesLabel c := by
  have row : (entries.all fun e => e.name.toList.head?.any startsLabel &&
      e.name.toList.all fun c => c.toNat < 128 && continuesLabel c) = true := by
    decide +kernel
  simpa only [List.all_eq_true, Bool.and_eq_true, decide_eq_true_eq] using row

/-- The spelling of a character in the entries. -/
def spelling (c : Char) : Char := if c = '.' then '_' else c

/-- A name that no blank surrounds is spelled character by character. -/
theorem toList_canonicalName {name : String} (h : trim name.toList = name.toList) :
    (canonicalName name).toList = name.toList.flatMap fun c => (upperChar c).map spelling := by
  rw [canonicalName, String.toList_ofList, h, upper, List.map_flatMap]
  rfl

/-- A character that is spelled in ASCII is ASCII itself, if it is a capital. -/
theorem ascii_of_spelling {c : Char} (hl : c.toNat ∉ lowered)
    (h : ∀ d ∈ (upperChar c).map spelling, d.toNat < 128) : c.toNat < 128 := by
  refine (ascii_or_lowered fun d hd => ?_).resolve_right hl
  have hs := h _ (List.mem_map_of_mem hd)
  rw [spelling] at hs
  split at hs
  case isTrue hdot => rw [hdot]; decide
  case isFalse => exact hs

/-- A character that is spelled as a part of a label is one. -/
theorem continuesLabel_of_spelling {c : Char} (hc : c.toNat < 128) :
    continuesLabel (spelling (upperAscii c)) → continuesLabel c :=
  forall_ascii (P := fun c => continuesLabel (spelling (upperAscii c)) → continuesLabel c)
    (by decide +kernel) hc

/-- A character that is spelled as the start of a label is one. -/
theorem startsLabel_of_spelling {c : Char} (hc : c.toNat < 128) :
    startsLabel (spelling (upperAscii c)) → startsLabel c :=
  forall_ascii (P := fun c => startsLabel (spelling (upperAscii c)) → startsLabel c)
    (by decide +kernel) hc

/-- Of the names that an expression can hold, the firmware knows only identifiers. -/
theorem knowsIdentifiers : Expr.KnowsIdentifiers address? := by
  intro text name value ha hv
  have hn : name.toList = upper (trim text) := Expr.Atom.toList_of_read ha
  obtain ⟨e, he, _⟩ := Option.map_eq_some_iff.mp hv
  rw [named?] at he
  have found := List.find?_some he
  have same : e.name = canonicalName name := beq_iff_eq.mp found
  obtain ⟨hstart, hall⟩ := name_row e (List.mem_of_find?_eq_some he)
  rw [same, toList_canonicalName (by rw [hn, trim_upper_trim])] at hstart hall
  have ascii : ∀ c ∈ name.toList, c.toNat < 128 := by
    intro c hc
    have hl : c.toNat ∉ lowered := by
      rw [hn, upper, List.mem_flatMap] at hc
      obtain ⟨d, _, hd⟩ := hc
      exact not_lowered hd
    exact ascii_of_spelling hl fun d hd => (hall d (List.mem_flatMap.mpr ⟨c, hc, hd⟩)).1
  have spelled : ∀ c ∈ name.toList, continuesLabel c := by
    intro c hc
    refine continuesLabel_of_spelling (ascii c hc) (hall _ (List.mem_flatMap.mpr ⟨c, hc, ?_⟩)).2
    rw [upperChar_of_ascii (ascii c hc)]
    exact List.mem_singleton_self _
  cases hl : name.toList with
  | nil => simp [hl] at hstart
  | cons c rest =>
      rw [hl] at hstart ascii spelled
      rw [isIdentifier, Bool.and_eq_true, List.all_eq_true]
      refine ⟨startsLabel_of_spelling (ascii c List.mem_cons_self) ?_,
        fun d hd => spelled d (List.mem_cons_of_mem c hd)⟩
      simpa [upperChar_of_ascii (ascii c List.mem_cons_self)] using hstart

end Z80Workbench.Firmware
