import Z80Workbench.Proofs.Text.Capital

/-!
# Z80Workbench.Proofs.Text.Fixed

Characters that upper case leaves as they are.  All that it leads to are among them, so that a text
in upper case is its own upper case; and an ASCII character other than a letter is what only the
character itself leads to.
-/

namespace Z80Workbench.Text

/-- Upper case leaves the character as it is. -/
def IsFixed (c : Char) : Prop := upperChar c = [c]

instance (c : Char) : Decidable (IsFixed c) := inferInstanceAs (Decidable (_ = _))

/-! ## rows of the tables -/

/-- The run goes on through a range of codes, of which only every second is asked for if `paired`
says so. -/
def meets (first last : Nat) (paired : Bool) (run : Nat × Nat × Nat × Int) : Bool :=
  Nat.ble run.1 last && Nat.ble first run.2.1 &&
    !(paired && run.2.2.1 == 2 && (first + run.1) % 2 == 1)

/-- No row of either table is that of a code in the range. -/
def isSettled (first last : Nat) (paired : Bool) : Bool :=
  !upperRuns.toList.any (meets first last paired) &&
    !upperSequences.toList.any fun row => Nat.ble first row.1 && Nat.ble row.1 last

/-- A character of such a range is fixed. -/
theorem fixed_of_isSettled {first last : Nat} {paired : Bool} (h : isSettled first last paired)
    {c : Char} (beyond : 128 ≤ c.toNat) (above : first ≤ c.toNat) (below : c.toNat ≤ last)
    (every : paired = true → (c.toNat - first) % 2 = 0) : IsFixed c := by
  simp only [isSettled, Bool.and_eq_true, Bool.not_eq_true', List.any_eq_false] at h
  obtain ⟨runs, sequences⟩ := h
  have noSequence : upperSequences.find? (·.1 == c.toNat) = none := by
    rw [Array.find?_eq_none]
    intro row hr hit
    have outside := sequences row hr.val
    simp only [Nat.ble_eq, beq_iff_eq] at outside hit
    omega
  rw [IsFixed, upperChar, if_neg (Nat.not_lt.mpr beyond), upperBeyondAscii, noSequence]
  dsimp only
  rw [Array.find?_eq_none.mpr]
  intro row hr hit
  have apart := runs row hr.val
  simp only [Bool.and_eq_true, decide_eq_true_eq, beq_iff_eq] at hit
  obtain ⟨⟨starts, ends⟩, stride⟩ := hit
  have reaches : Nat.ble row.1 last = true := Nat.ble_eq.mpr (Nat.le_trans starts below)
  have within : Nat.ble first row.2.1 = true := Nat.ble_eq.mpr (Nat.le_trans above ends)
  simp only [meets, reaches, within, Bool.true_and, Bool.not_eq_true', Bool.not_eq_false,
    Bool.and_eq_true, beq_iff_eq] at apart
  -- both take every second code, from codes of different parity
  obtain ⟨⟨asked, two⟩, odd⟩ := apart
  have even := every asked
  rw [two] at stride
  omega

/-- A run leads to codes of no row, unless it is that of a lowered character. -/
theorem run_settled : ∀ row ∈ upperRuns.toList, row.1 = row.2.1 ∧ row.1 ∈ lowered ∨
    isSettled (row.1 + row.2.2.2).toNat (row.2.1 + row.2.2.2).toNat
      (row.2.2.1 == 2 || row.1 == row.2.1) := by
  have rows : (upperRuns.toList.all fun row => row.1 == row.2.1 && lowered.contains row.1 ||
      isSettled (row.1 + row.2.2.2).toNat (row.2.1 + row.2.2.2).toNat
        (row.2.2.1 == 2 || row.1 == row.2.1)) = true := by
    decide +kernel
  simpa only [List.all_eq_true, Bool.or_eq_true, Bool.and_eq_true, beq_iff_eq,
    List.contains_eq_mem, decide_eq_true_eq] using rows

/-- A sequence holds capital letters and codes of no row. -/
theorem sequence_settled : ∀ row ∈ upperSequences.toList, ∀ n ∈ row.2,
    n ≤ 127 ∧ IsFixed (Char.ofNat n) ∨ 128 ≤ (Char.ofNat n).toNat ∧
      isSettled (Char.ofNat n).toNat (Char.ofNat n).toNat true := by
  have rows : (upperSequences.toList.all fun row => row.2.all fun n =>
      Nat.ble n 127 && decide (IsFixed (Char.ofNat n)) || Nat.ble 128 (Char.ofNat n).toNat &&
        isSettled (Char.ofNat n).toNat (Char.ofNat n).toNat true) = true := by
    decide +kernel
  simpa only [List.all_eq_true, Bool.or_eq_true, Bool.and_eq_true, Nat.ble_eq,
    decide_eq_true_eq] using rows

/-- The upper case of a lowered character is fixed, and so is that of an ASCII character. -/
theorem lowered_fixed : ∀ n ∈ lowered, ∀ d ∈ upperChar (Char.ofNat n), IsFixed d := by
  have rows : (lowered.all fun n =>
      (upperChar (Char.ofNat n)).all fun d => decide (IsFixed d)) = true := by
    decide +kernel
  simpa only [List.all_eq_true, decide_eq_true_eq] using rows

theorem fixed_upperAscii {c : Char} (hc : c.toNat < 128) : IsFixed (upperAscii c) :=
  forall_ascii (P := fun c => IsFixed (upperAscii c)) (by decide +kernel) hc

/-! ## upper case twice -/

/-- A run leads to fixed characters. -/
theorem fixed_of_run {row : Nat × Nat × Nat × Int} (hr : row ∈ upperRuns.toList) {c : Char}
    (hc : c.toNat ∉ lowered) (hf : row.1 ≤ c.toNat) (hl : c.toNat ≤ row.2.1)
    (stride : (c.toNat - row.1) % row.2.2.1 = 0) :
    IsFixed (Char.ofNat (c.toNat + row.2.2.2).toNat) := by
  have alone : ¬ (row.1 = row.2.1 ∧ row.1 ∈ lowered) := by
    rintro ⟨single, low⟩
    have same : c.toNat = row.1 := by omega
    exact hc (same ▸ low)
  have beyond : 128 ≤ row.1 + row.2.2.2 := (run_row row hr).1.resolve_left alone
  have code := toNat_run hr hf hl
  generalize Char.ofNat (c.toNat + row.2.2.2).toNat = d at code
  refine fixed_of_isSettled ((run_settled row hr).resolve_left alone) (by omega) (by omega)
    (by omega) fun paired => ?_
  rw [Bool.or_eq_true, beq_iff_eq, beq_iff_eq] at paired
  cases paired with
  | inl two =>
      rw [two] at stride
      omega
  | inr single => omega

/-- A sequence consists of fixed characters. -/
theorem fixed_of_sequence {row : Nat × List Nat} (hr : row ∈ upperSequences.toList) {n : Nat}
    (hn : n ∈ row.2) : IsFixed (Char.ofNat n) := by
  obtain ⟨_, fixed⟩ | ⟨beyond, settled⟩ := sequence_settled row hr n hn
  · exact fixed
  · exact fixed_of_isSettled settled beyond (Nat.le_refl _) (Nat.le_refl _) fun _ => by
      rw [Nat.sub_self]

/-- Upper case leads to fixed characters only. -/
theorem fixed_of_mem_upperChar {c d : Char} (h : d ∈ upperChar c) : IsFixed d := by
  by_cases hc : c.toNat < 128
  · rw [upperChar_of_ascii hc, List.mem_singleton] at h
    rw [h]
    exact fixed_upperAscii hc
  by_cases low : c.toNat ∈ lowered
  · exact lowered_fixed _ low d (by rwa [Char.ofNat_toNat])
  rw [upperChar, if_neg hc] at h
  obtain ⟨row, hr, _, n, hn, rfl⟩ | ⟨row, hr, hf, hl, stride, rfl⟩ | ⟨same, rfl⟩ :=
    mem_upperBeyondAscii h
  · exact fixed_of_sequence hr hn
  · exact fixed_of_run hr low hf hl stride
  · rw [IsFixed, upperChar, if_neg hc, same]

theorem upper_of_fixed {cs : List Char} (h : ∀ c ∈ cs, IsFixed c) : upper cs = cs := by
  induction cs with
  | nil => rfl
  | cons c rest ih =>
      rw [upper_cons, h c List.mem_cons_self, ih fun d hd => h d (List.mem_cons_of_mem c hd)]
      rfl

/-- Upper case twice is upper case once. -/
theorem upper_upper (cs : List Char) : upper (upper cs) = upper cs := by
  refine upper_of_fixed fun d hd => ?_
  obtain ⟨c, _, hc⟩ := List.mem_flatMap.mp hd
  exact fixed_of_mem_upperChar hc

/-! ## steady characters -/

/-- Upper case neither changes the character nor leads to it from another one. -/
structure IsSteady (c : Char) : Prop where
  fixed : IsFixed c
  only : ∀ d, c ∈ upperChar d → c = d

/-- No row of the tables leads into ASCII but to a letter. -/
theorem steady_row : (∀ row ∈ upperSequences.toList, ∀ n ∈ row.2,
      (Char.ofNat n).toNat < 128 → (Char.ofNat n).isAlpha = true) ∧
    ∀ n ∈ lowered, ∀ d ∈ upperChar (Char.ofNat n), d.isAlpha = true := by
  have rows : ((upperSequences.toList.all fun row => row.2.all fun n =>
      decide ((Char.ofNat n).toNat < 128 → (Char.ofNat n).isAlpha = true)) &&
      lowered.all fun n => (upperChar (Char.ofNat n)).all Char.isAlpha) = true := by
    decide +kernel
  simpa only [Bool.and_eq_true, List.all_eq_true, decide_eq_true_eq] using rows

/-- An ASCII character other than a letter is steady. -/
theorem isSteady_of_ascii {c : Char} (hc : c.toNat < 128) (other : c.isAlpha = false) :
    IsSteady c where
  fixed := by
    have same : c.isAlpha = false → IsFixed c :=
      forall_ascii (P := fun c => c.isAlpha = false → IsFixed c) (by decide +kernel) hc
    exact same other
  only := by
    intro d h
    by_cases hd : d.toNat < 128
    · rw [upperChar_of_ascii hd, List.mem_singleton] at h
      have same : (upperAscii d).isAlpha = false → upperAscii d = d :=
        forall_ascii (P := fun d => (upperAscii d).isAlpha = false → upperAscii d = d)
          (by decide +kernel) hd
      rw [h] at other ⊢
      exact same other
    by_cases low : d.toNat ∈ lowered
    · rw [steady_row.2 _ low c (by rwa [Char.ofNat_toNat])] at other
      cases other
    rw [upperChar, if_neg hd] at h
    obtain ⟨row, hr, _, n, hn, rfl⟩ | ⟨row, hr, hf, hl, _, rfl⟩ | ⟨_, rfl⟩ :=
      mem_upperBeyondAscii h
    · rw [steady_row.1 row hr n hn hc] at other
      cases other
    · -- only the run of a lowered character leads into ASCII
      have code := toNat_run hr hf hl
      cases (run_row row hr).1 with
      | inl single =>
          have same : d.toNat = row.1 := by omega
          exact absurd (same ▸ single.2) low
      | inr beyond => omega
    · rfl

end Z80Workbench.Text
