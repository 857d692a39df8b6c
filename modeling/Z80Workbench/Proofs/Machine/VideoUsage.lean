import Z80Workbench.Proofs.Machine.VideoPorts

/-!
# Z80Workbench.Proofs.Machine.VideoUsage

The ranges of video memory in use.  Memory is looked through once, byte by byte; a range is open
while the bytes are not zero, and the end of memory closes a range as a zero does.  The ranges that
come out are the longest ones: each holds bytes in use only, a zero stands between any two, and no
byte in use is left out.
-/

namespace Z80Workbench.Video

/-- The ranges, in order and with a gap between any two, are the addresses in use from an address
on. -/
structure Delimits (used : Nat → Prop) (start : Nat) (ranges : List (Nat × Nat)) : Prop where
  bounds : ∀ r ∈ ranges, start ≤ r.1 ∧ r.1 ≤ r.2
  apart : ranges.Pairwise fun r s => r.2 + 1 < s.1
  covers : ∀ a, start ≤ a → (used a ↔ ∃ r ∈ ranges, r.1 ≤ a ∧ a ≤ r.2)

namespace Delimits

variable {used : Nat → Prop} {start : Nat} {ranges : List (Nat × Nat)}

/-- Where nothing is in use, there is no range. -/
theorem nil (h : ∀ a, start ≤ a → ¬used a) : Delimits used start [] where
  bounds := List.forall_mem_nil _
  apart := List.Pairwise.nil
  covers a ha := by simpa using h a ha

/-- An address that is not in use starts no range. -/
theorem skip (free : ¬used start) (h : Delimits used (start + 1) ranges) :
    Delimits used start ranges where
  bounds r hr := ⟨Nat.le_of_succ_le (h.bounds r hr).1, (h.bounds r hr).2⟩
  apart := h.apart
  covers a ha := by
    obtain rfl | later := Nat.eq_or_lt_of_le ha
    · refine iff_of_false free ?_
      rintro ⟨r, hr, first, -⟩
      have := (h.bounds r hr).1
      omega
    · exact h.covers a later

/-- A range ends in front of an address that is not in use. -/
theorem cons {first last : Nat} (le : first ≤ last) (inside : ∀ a, first ≤ a → a ≤ last → used a)
    (free : ¬used (last + 1)) (h : Delimits used (last + 2) ranges) :
    Delimits used first ((first, last) :: ranges) where
  bounds := by
    refine List.forall_mem_cons.mpr ⟨⟨Nat.le_refl first, le⟩, fun r hr => ?_⟩
    have := h.bounds r hr
    omega
  apart := List.pairwise_cons.mpr ⟨fun r hr => (h.bounds r hr).1, h.apart⟩
  covers a ha := by
    simp only [List.mem_cons, exists_eq_or_imp]
    by_cases within : a ≤ last
    case pos => exact iff_of_true (inside a ha within) (.inl ⟨ha, within⟩)
    case neg =>
        have rest := (h.skip free).covers a (by omega)
        exact rest.trans ⟨.inr, fun hit => hit.resolve_left fun here => within here.2⟩

/-- The address behind a range is not in use. -/
theorem not_used_succ (h : Delimits used start ranges) {r : Nat × Nat} (hr : r ∈ ranges) :
    ¬used (r.2 + 1) := by
  have reaches := h.bounds r hr
  rw [h.covers (r.2 + 1) (by omega)]
  rintro ⟨s, hs, low, high⟩
  obtain ⟨front, back, rfl⟩ := List.append_of_mem hr
  obtain ⟨-, behind, before⟩ := List.pairwise_append.mp h.apart
  rw [List.mem_append, List.mem_cons] at hs
  obtain hs | rfl | hs := hs
  · have := before s hs r List.mem_cons_self
    omega
  · omega
  · have := List.rel_of_pairwise_cons behind hs
    omega

/-- Both ends of a range are in use. -/
theorem used_ends (h : Delimits used start ranges) {r : Nat × Nat} (hr : r ∈ ranges) :
    used r.1 ∧ used r.2 := by
  obtain ⟨above, le⟩ := h.bounds r hr
  exact ⟨(h.covers r.1 above).mpr ⟨r, hr, Nat.le_refl _, le⟩,
    (h.covers r.2 (Nat.le_trans above le)).mpr ⟨r, hr, le, Nat.le_refl _⟩⟩

/-- The last address in use ends the last range. -/
theorem getLast?_eq (h : Delimits used start ranges) {last : Nat} (above : start ≤ last)
    (hu : used last) (free : ∀ a, used a → a ≤ last) :
    ∃ first, ranges.getLast? = some (first, last) := by
  obtain ⟨r, hr, -, reaches⟩ := (h.covers last above).mp hu
  have ends : r.2 = last := Nat.le_antisymm (free r.2 (h.used_ends hr).2) reaches
  obtain ⟨front, back, rfl⟩ := List.append_of_mem hr
  have none : back = [] := by
    refine List.eq_nil_iff_forall_not_mem.mpr fun s hs => ?_
    have gap := List.rel_of_pairwise_cons (List.pairwise_append.mp h.apart).2.1 hs
    have inside := free s.1 (h.used_ends (by simp [hs])).1
    omega
  exact ⟨r.1, by rw [none, ← ends, List.getLast?_concat]⟩

end Delimits

/-! ## the scan -/

section

variable {used : Nat → Prop} {address : Nat} {bytes : List Nat}

/-- The bytes from an address on are in use where they are not zero. -/
def HoldsFrom (used : Nat → Prop) (address : Nat) (bytes : List Nat) : Prop :=
  ∀ i, used (address + i) ↔ bytes.getD i 0 ≠ 0

/-- A range that has been opened in front of an address is in use up to it. -/
def Reaches (used : Nat → Prop) (address : Nat) (opened : Option Nat) : Prop :=
  ∀ first ∈ opened, first < address ∧ ∀ a, first ≤ a → a < address → used a

theorem HoldsFrom.tail {b : Nat} (h : HoldsFrom used address (b :: bytes)) :
    HoldsFrom used (address + 1) bytes := by
  intro i
  rw [Nat.add_assoc, Nat.add_comm 1 i]
  exact h (i + 1)

theorem HoldsFrom.head {b : Nat} (h : HoldsFrom used address (b :: bytes)) :
    used address ↔ b ≠ 0 := h 0

/-- What looking through some bytes finds, if a range that is open so far is in use up to them. -/
theorem delimits_rangesFrom {opened : Option Nat} (cells : HoldsFrom used address bytes)
    (reached : Reaches used address opened) :
    Delimits used (opened.getD address) (rangesFrom address opened bytes) := by
  fun_induction rangesFrom address opened bytes with
  | case1 address opened =>
      have free (a : Nat) (ha : address ≤ a) : ¬used a := by
        obtain ⟨i, rfl⟩ := Nat.exists_eq_add_of_le ha
        simp [cells i]
      cases opened with
      | none => exact .nil free
      | some first =>
          obtain ⟨before, inside⟩ := reached first rfl
          obtain ⟨length, rfl⟩ := Nat.exists_eq_add_of_lt before
          exact .cons (Nat.le_add_right first length)
            (fun a low high => inside a low (Nat.lt_succ_of_le high)) (free _ (Nat.le_refl _))
            (.nil fun a ha => free a (Nat.le_of_succ_le ha))
  | case2 address rest ih => exact (ih cells.tail nofun).skip (by simp [cells.head])
  | case3 address rest b ih =>
      refine ih cells.tail fun first hf => ?_
      cases hf
      refine ⟨Nat.lt_succ_self address, fun a low high => ?_⟩
      rw [Nat.le_antisymm (Nat.le_of_lt_succ high) low]
      exact cells.head.mpr (Nat.succ_ne_zero b)
  | case4 address rest first ih =>
      obtain ⟨before, inside⟩ := reached first rfl
      obtain ⟨length, rfl⟩ := Nat.exists_eq_add_of_lt before
      exact .cons (Nat.le_add_right first length)
        (fun a low high => inside a low (Nat.lt_succ_of_le high)) (by simp [cells.head])
        (ih cells.tail nofun)
  | case5 address rest first b ih =>
      obtain ⟨before, inside⟩ := reached first rfl
      refine ih cells.tail fun other ho => ?_
      cases ho
      refine ⟨Nat.lt_succ_of_lt before, fun a low high => ?_⟩
      obtain rfl | earlier := Nat.eq_or_lt_of_le (Nat.le_of_lt_succ high)
      · exact cells.head.mpr (Nat.succ_ne_zero b)
      · exact inside a low earlier

example : rangesFrom 0 none [0, 3, 4, 0, 0, 5] = [(1, 2), (5, 5)] := by decide

end

/-- The ranges of video memory in use are what is not zero, in order, each as long as it can be; a
range that reaches the last byte ends there. -/
theorem usedRanges_exact (v : Video) (size : v.vram.size = vramSize) :
    (∀ r ∈ v.usedRanges, r.1 ≤ r.2 ∧ r.2 < vramSize) ∧
      (v.usedRanges.Pairwise fun r s =>
        r.2 < s.1 ∧ ∃ gap, r.2 < gap ∧ gap < s.1 ∧ v.byteAt gap = 0) ∧
      (∀ a < vramSize, v.byteAt a ≠ 0 ↔ ∃ r ∈ v.usedRanges, r.1 ≤ a ∧ a ≤ r.2) ∧
      (v.byteAt 0x3FFF ≠ 0 → ∃ first, v.usedRanges.getLast? = some (first, 0x3FFF)) := by
  let used (a : Nat) : Prop := v.vram.toList.getD a 0 ≠ 0
  have cells : HoldsFrom used 0 v.vram.toList := fun i => by rw [Nat.zero_add]
  have unopened : Reaches used 0 none := nofun
  have found : Delimits used 0 v.usedRanges := delimits_rangesFrom cells unopened
  have byte {a : Nat} (ha : a < vramSize) : used a ↔ v.byteAt a ≠ 0 := by
    simp [used, byteAt, Nat.mod_eq_of_lt ha]
  have within {a : Nat} (ha : used a) : a < vramSize :=
    Nat.lt_of_not_le fun beyond => ha (by simp [size, beyond])
  have ends {r : Nat × Nat} (hr : r ∈ v.usedRanges) : r.2 < vramSize :=
    within (found.used_ends hr).2
  refine ⟨?bounds, ?apart, ?covers, ?closed⟩
  case bounds => exact fun r hr => ⟨(found.bounds r hr).2, ends hr⟩
  case apart =>
      refine found.apart.imp_of_mem fun {r s} hr hs gap => ?_
      have inside : r.2 + 1 < vramSize :=
        Nat.lt_trans gap (Nat.lt_of_le_of_lt (found.bounds s hs).2 (ends hs))
      have zero := Decidable.not_not.mp (mt (byte inside).mpr (found.not_used_succ hr))
      exact ⟨Nat.lt_of_succ_lt gap, r.2 + 1, Nat.lt_succ_self _, gap, zero⟩
  case covers => exact fun a ha => (byte ha).symm.trans (found.covers a (Nat.zero_le a))
  case closed =>
      intro hb
      have final : used 0x3FFF := (byte (by decide)).mpr hb
      exact found.getLast?_eq (Nat.zero_le _) final fun a ha => Nat.le_of_lt_succ (within ha)

/-- A chip with one byte in use near the start of memory and two at its end. -/
def sparse : Video := ((initial.store 5 1).store 0x3FFE 8).store 0x3FFF 9

theorem usedRanges_exact_sparse :
    (∃ r ∈ sparse.usedRanges, r.1 ≤ 5 ∧ 5 ≤ r.2) ∧
      (¬∃ r ∈ sparse.usedRanges, r.1 ≤ 6 ∧ 6 ≤ r.2) ∧
      ∃ first, sparse.usedRanges.getLast? = some (first, 0x3FFF) := by
  obtain ⟨-, -, covers, closed⟩ := usedRanges_exact sparse (by simp [sparse, initial])
  refine ⟨(covers 5 (by decide)).mp ?_, mt (covers 6 (by decide)).mpr ?_, closed ?_⟩ <;>
    simp [sparse, byteAt, store, initial, vramSize]

end Z80Workbench.Video
