import Z80Workbench.Proofs.Text.Trim
import Z80Workbench.Text.Upper

/-!
# Z80Workbench.Proofs.Text.Capital

Laws of the upper case of the Unicode standard.  Few characters beyond ASCII have an upper case
within it, and upper case never produces one of them; nor does it produce a blank from anything
else.  The tables are looked through once, row by row, for each fact.
-/

namespace Z80Workbench.Text

/-- The characters beyond ASCII whose upper case is ASCII: the sharp and the long s, the dotless i,
and ligatures of f, i, l, s and t. -/
def lowered : List Nat := [223, 305, 383, 64256, 64257, 64258, 64259, 64260, 64261, 64262]

/-! ## rows of the tables -/

/-- A character in the upper case of another comes from a row of a table, or no row is that of the
other. -/
theorem mem_upperBeyondAscii {c d : Char} (h : d ∈ upperBeyondAscii c) :
    (∃ row ∈ upperSequences.toList, row.1 = c.toNat ∧ ∃ n ∈ row.2, d = Char.ofNat n) ∨
    (∃ row ∈ upperRuns.toList, row.1 ≤ c.toNat ∧ c.toNat ≤ row.2.1 ∧
      (c.toNat - row.1) % row.2.2.1 = 0 ∧ d = Char.ofNat (c.toNat + row.2.2.2).toNat) ∨
    upperBeyondAscii c = [c] ∧ d = c := by
  unfold upperBeyondAscii at h ⊢
  dsimp only at h ⊢
  split at h
  case h_1 code codes hf =>
      obtain ⟨n, hn, rfl⟩ := List.mem_map.mp h
      have hc : code = c.toNat := by simpa using Array.find?_some hf
      exact .inl ⟨_, (Array.mem_of_find?_eq_some hf).val, hc, n, hn, rfl⟩
  case h_2 =>
      split at h
      case h_1 first last stride distance hf =>
          have hr := Array.find?_some hf
          simp only [Bool.and_eq_true, decide_eq_true_eq, beq_iff_eq] at hr
          exact .inr (.inl ⟨_, (Array.mem_of_find?_eq_some hf).val, hr.1.1, hr.1.2, hr.2,
            List.mem_singleton.mp h⟩)
      case h_2 => exact .inr (.inr ⟨rfl, List.mem_singleton.mp h⟩)

/-- Rows of several characters: each holds one beyond ASCII, unless it is that of a lowered one,
and none that is lowered or blank; and none is that of a blank. -/
theorem sequence_row : ∀ row ∈ upperSequences.toList,
    isBlank (Char.ofNat row.1) = false ∧ row.2 ≠ [] ∧
    (row.1 ∈ lowered ∨ ∃ n ∈ row.2, 128 ≤ (Char.ofNat n).toNat) ∧
    ∀ n ∈ row.2, (Char.ofNat n).toNat ∉ lowered ∧ isBlank (Char.ofNat n) = false := by
  decide +kernel

/-- Rows of runs: each leads from characters to characters, beyond ASCII unless it is that of a
lowered one, and to none that is lowered or blank; and none starts from a blank. -/
theorem run_row : ∀ row ∈ upperRuns.toList,
    (row.1 = row.2.1 ∧ row.1 ∈ lowered ∨ 128 ≤ row.1 + row.2.2.2) ∧
    0 ≤ row.1 + row.2.2.2 ∧
    (row.2.1 + row.2.2.2 < 55296 ∨ 57344 ≤ row.1 + row.2.2.2 ∧ row.2.1 + row.2.2.2 < 1114112) ∧
    (∀ n ∈ lowered, n < row.1 + row.2.2.2 ∨ row.2.1 + row.2.2.2 < n) ∧
    ∀ r ∈ blankRanges, (r.2 < row.1 ∨ row.2.1 < r.1) ∧
      (r.2 < row.1 + row.2.2.2 ∨ row.2.1 + row.2.2.2 < r.1) := by
  decide +kernel

/-- The code of a character that a run leads to. -/
theorem toNat_run {row : Nat × Nat × Nat × Int} (hr : row ∈ upperRuns.toList) {n : Nat}
    (hf : row.1 ≤ n) (hl : n ≤ row.2.1) :
    ((Char.ofNat (n + row.2.2.2).toNat).toNat : Int) = n + row.2.2.2 := by
  obtain ⟨_, hz, hvalid, _⟩ := run_row row hr
  have hv : (n + row.2.2.2).toNat.isValidChar := by
    unfold Nat.isValidChar
    omega
  have ho : (Char.ofNat (n + row.2.2.2).toNat).toNat = (n + row.2.2.2).toNat := by
    rw [Char.ofNat, dif_pos hv]
    rfl
  omega

/-! ## upper case -/

/-- What holds of the first 128 characters, one by one, holds of every ASCII character. -/
theorem forall_ascii {P : Char → Prop} (h : ∀ n < 128, P (Char.ofNat n)) {c : Char}
    (hc : c.toNat < 128) : P c := by
  have hp := h c.toNat hc
  rwa [Char.ofNat_toNat] at hp

/-- The upper case of an ASCII character is ASCII. -/
theorem toNat_upperAscii {c : Char} (hc : c.toNat < 128) : (upperAscii c).toNat < 128 :=
  forall_ascii (P := fun c => (upperAscii c).toNat < 128) (by decide +kernel) hc

/-- The upper case of an ASCII character is blank exactly if the character is. -/
theorem isBlank_upperAscii {c : Char} (hc : c.toNat < 128) : isBlank (upperAscii c) = isBlank c :=
  forall_ascii (P := fun c => isBlank (upperAscii c) = isBlank c) (by decide +kernel) hc

/-- Upper case replaces the characters of an ASCII text one by one. -/
theorem upper_of_ascii {cs : List Char} (h : ∀ c ∈ cs, c.toNat < 128) :
    upper cs = cs.map upperAscii := by
  induction cs with
  | nil => rfl
  | cons c rest ih =>
      rw [upper_cons, upperChar_of_ascii (h c List.mem_cons_self),
        ih fun d hd => h d (List.mem_cons_of_mem c hd)]
      rfl

/-- The upper case of a lowered character is ASCII. -/
theorem lowered_row : ∀ n ∈ lowered, ∀ d ∈ upperChar (Char.ofNat n), d.toNat < 128 := by
  have row : (lowered.all fun n =>
      (upperChar (Char.ofNat n)).all fun d => d.toNat < 128) = true := by
    decide +kernel
  simpa only [List.all_eq_true, decide_eq_true_eq] using row

/-- Upper case leads out of ASCII, unless it starts there or at a lowered character. -/
theorem ascii_or_lowered {c : Char} (h : ∀ d ∈ upperChar c, d.toNat < 128) :
    c.toNat < 128 ∨ c.toNat ∈ lowered := by
  by_cases hc : c.toNat < 128
  · exact .inl hc
  · right
    rw [upperChar, if_neg hc] at h
    unfold upperBeyondAscii at h
    dsimp only at h
    split at h
    case h_1 code codes hf =>
        have hc : code = c.toNat := by simpa using Array.find?_some hf
        obtain ⟨_, _, hs, _⟩ := sequence_row _ (Array.mem_of_find?_eq_some hf).val
        cases hs with
        | inl hl => exact hc ▸ hl
        | inr hn =>
            obtain ⟨n, hn, hb⟩ := hn
            have := h _ (List.mem_map_of_mem hn)
            omega
    case h_2 =>
        split at h
        case h_1 first last stride distance hf =>
            have hr := Array.find?_some hf
            have hm := (Array.mem_of_find?_eq_some hf).val
            simp only [Bool.and_eq_true, decide_eq_true_eq] at hr
            have hn := toNat_run hm hr.1.1 hr.1.2
            have hd := h _ List.mem_cons_self
            cases (run_row _ hm).1 with
            | inl hl =>
                have he : c.toNat = first := by
                  have : first = last := hl.1
                  omega
                exact he ▸ hl.2
            | inr hb =>
                dsimp only at hn hb
                omega
        case h_2 =>
            have := h c List.mem_cons_self
            omega

/-- Upper case leads to no lowered character. -/
theorem not_lowered {c d : Char} (h : d ∈ upperChar c) : d.toNat ∉ lowered := by
  intro hm
  have beyond : ∀ n ∈ lowered, 128 ≤ n := by decide
  have hd := beyond _ hm
  by_cases hc : c.toNat < 128
  · rw [upperChar_of_ascii hc, List.mem_singleton] at h
    have := toNat_upperAscii hc
    rw [← h] at this
    omega
  · rw [upperChar, if_neg hc] at h
    obtain ⟨row, hr, _, n, hn, rfl⟩ | ⟨row, hr, hf, hl, _, rfl⟩ | ⟨_, rfl⟩ :=
      mem_upperBeyondAscii h
    · exact ((sequence_row row hr).2.2.2 n hn).1 hm
    · have hn := toNat_run hr hf hl
      have := (run_row row hr).2.2.2.1 _ hm
      omega
    · have := lowered_row _ hm d (by rwa [Char.ofNat_toNat, upperChar, if_neg hc])
      omega

/-- Upper case leads to no blank from anything else. -/
theorem not_blank {c d : Char} (hc : isBlank c = false) (h : d ∈ upperChar c) :
    isBlank d = false := by
  by_cases ha : c.toNat < 128
  · rw [upperChar_of_ascii ha, List.mem_singleton] at h
    rw [h, isBlank_upperAscii ha, hc]
  · rw [upperChar, if_neg ha] at h
    obtain ⟨row, hr, _, n, hn, rfl⟩ | ⟨row, hr, hf, hl, _, rfl⟩ | ⟨_, rfl⟩ :=
      mem_upperBeyondAscii h
    · exact ((sequence_row row hr).2.2.2 n hn).2
    · rw [isBlank, List.any_eq_false]
      intro r hb hm
      simp only [Bool.and_eq_true, decide_eq_true_eq] at hm
      have hn := toNat_run hr hf hl
      have := ((run_row row hr).2.2.2.2 r hb).2
      omega
    · exact hc

/-- A blank is its own upper case. -/
theorem upperChar_of_isBlank {c : Char} (h : isBlank c = true) : upperChar c = [c] := by
  by_cases hc : c.toNat < 128
  · rw [upperChar_of_ascii hc]
    have same : isBlank c = true → upperAscii c = c :=
      forall_ascii (P := fun c => isBlank c = true → upperAscii c = c) (by decide +kernel) hc
    rw [same h]
  · rw [upperChar, if_neg hc, upperBeyondAscii]
    dsimp only
    split
    case h_1 code codes hf =>
        have hs := (sequence_row _ (Array.mem_of_find?_eq_some hf).val).1
        have he : code = c.toNat := by simpa using Array.find?_some hf
        rw [he, Char.ofNat_toNat, h] at hs
        contradiction
    case h_2 =>
        split
        case h_1 first last stride distance hf =>
            have hr := Array.find?_some hf
            simp only [Bool.and_eq_true, decide_eq_true_eq] at hr
            simp only [isBlank, List.any_eq_true, Bool.and_eq_true, decide_eq_true_eq] at h
            obtain ⟨r, hb, hrange⟩ := h
            have := ((run_row _ (Array.mem_of_find?_eq_some hf).val).2.2.2.2 r hb).1
            dsimp only at this
            omega
        case h_2 => rfl

/-- Every character has an upper case. -/
theorem upperChar_ne_nil (c : Char) : upperChar c ≠ [] := by
  unfold upperChar upperBeyondAscii
  dsimp only
  split
  · simp
  · split
    case h_1 code codes hf =>
        have hs := (sequence_row _ (Array.mem_of_find?_eq_some hf).val).2.1
        simpa using hs
    case h_2 => split <;> simp

/-! ## trimming -/

theorem trimStart_upper (cs : List Char) : trimStart (upper cs) = upper (trimStart cs) := by
  induction cs with
  | nil => rfl
  | cons c rest ih =>
      cases hc : isBlank c with
      | true =>
          have drop : trimStart (c :: rest) = trimStart rest := by simp [trimStart, hc]
          rw [drop, ← ih, upper_cons, upperChar_of_isBlank hc]
          simp [trimStart, hc]
      | false =>
          have keep : trimStart (c :: rest) = c :: rest := by simp [trimStart, hc]
          obtain ⟨d, ds, hd⟩ := List.exists_cons_of_ne_nil (upperChar_ne_nil c)
          have hb : isBlank d = false := not_blank hc (by rw [hd]; exact List.mem_cons_self)
          rw [keep, upper_cons, hd]
          simp [trimStart, hb]

theorem trimEnd_upper (cs : List Char) : trimEnd (upper cs) = upper (trimEnd cs) := by
  induction cs using List.reverseRecOn with
  | nil => rfl
  | append_singleton front c ih =>
      rw [upper_append, upper_cons, upper_nil, List.append_nil]
      cases hc : isBlank c with
      | true => rw [trimEnd_concat_blank hc, upperChar_of_isBlank hc, trimEnd_concat_blank hc, ih]
      | false =>
          obtain hn | ⟨ds, d, hd⟩ := List.eq_nil_or_concat (upperChar c)
          · exact absurd hn (upperChar_ne_nil c)
          have hb : isBlank d = false := not_blank hc (by rw [hd]; simp)
          rw [trimEnd_concat hc, upper_append, upper_cons, upper_nil, List.append_nil, hd,
            List.concat_eq_append, ← List.append_assoc, trimEnd_concat hb]

/-- Upper case leaves the blanks around a text where they are. -/
theorem trim_upper (cs : List Char) : trim (upper cs) = upper (trim cs) := by
  rw [trim, trimStart_upper, trimEnd_upper, trim]

/-- The upper case of a trimmed text is trimmed. -/
theorem trim_upper_trim (cs : List Char) : trim (upper (trim cs)) = upper (trim cs) := by
  rw [trim_upper, trim_trim]

end Z80Workbench.Text
