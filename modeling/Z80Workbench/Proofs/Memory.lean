import Z80Workbench.Memory

/-!
# Z80Workbench.Proofs.Memory

Reading back rows of bytes.  A row stored from an address on is found there slot by slot, as long
as it does not run into itself round the end of the address space, and nowhere else.
-/

namespace Z80Workbench.Memory

/-- Storing a row leaves the addresses outside it as they are. -/
theorem get?_writeSlots_of_ne (m : Memory) (address : Nat) (slots : List (Option Nat))
    {other : Nat} (h : ∀ i < slots.length, other % 65536 ≠ (address + i) % 65536) :
    (m.writeSlots address slots).get? other = m.get? other := by
  induction slots generalizing m address with
  | nil => rfl
  | cons slot rest ih =>
      have hr : ∀ i < rest.length, other % 65536 ≠ (address + 1 + i) % 65536 := by
        intro i hi
        have := h (i + 1) (Nat.succ_lt_succ hi)
        rwa [Nat.add_assoc, Nat.add_comm 1]
      cases slot with
      | none => exact ih m (address + 1) hr
      | some b =>
          have h0 : address % 65536 ≠ other % 65536 := (h 0 (Nat.zero_lt_succ _)).symm
          rw [writeSlots, ih _ _ hr, get?_set, if_neg h0]

/-- Each slot of a row is found at its address, and a gap leaves what was there. -/
theorem get?_writeSlots (m : Memory) (address : Nat) {slots : List (Option Nat)}
    (hl : slots.length ≤ 65536) {i : Nat} {slot : Option Nat} (h : slots[i]? = some slot) :
    (m.writeSlots address slots).get? (address + i) =
      (slot.map (· % 256)).or (m.get? (address + i)) := by
  induction slots generalizing m address i with
  | nil => simp at h
  | cons first rest ih =>
      rw [List.length_cons] at hl
      cases i with
      | zero =>
          rw [List.getElem?_cons_zero, Option.some.injEq] at h
          subst h
          have hr : ∀ k < rest.length, (address + 0) % 65536 ≠ (address + 1 + k) % 65536 := by
            intro k hk
            omega
          cases first with
          | none => rw [writeSlots, get?_writeSlots_of_ne _ _ _ hr]; rfl
          | some b =>
              rw [writeSlots, get?_writeSlots_of_ne _ _ _ hr, get?_set]
              simp
      | succ i =>
          rw [List.getElem?_cons_succ] at h
          have hi : i < rest.length := (List.getElem?_eq_some_iff.mp h).1
          have ha : address + (i + 1) = address + 1 + i := by omega
          cases first with
          | none => rw [writeSlots, ha, ih _ _ (by omega) h]
          | some b =>
              have hn : ¬ address % 65536 = (address + 1 + i) % 65536 := by omega
              rw [writeSlots, ha, ih _ _ (by omega) h, get?_set, if_neg hn]

/-- Storing a row takes no byte away. -/
theorem isSome_writeSlots {m : Memory} {other : Nat} (h : (m.get? other).isSome = true)
    (address : Nat) (slots : List (Option Nat)) :
    ((m.writeSlots address slots).get? other).isSome = true := by
  induction slots generalizing m address with
  | nil => exact h
  | cons slot rest ih =>
      cases slot with
      | none => exact ih h (address + 1)
      | some b =>
          refine ih ?_ (address + 1)
          rw [get?_set]
          split
          · rfl
          · exact h

end Z80Workbench.Memory
