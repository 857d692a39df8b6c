import Z80Workbench.Proofs.Text.Fixed
import Z80Workbench.Text.Letter

/-!
# Z80Workbench.Proofs.Text.Sign

Signs and words.  The signs by which a line is taken apart are no word characters, and upper case
neither changes them nor leads to them; and no blank is a word character.
-/

namespace Z80Workbench.Text

/-- The signs that end labels, open quotes and start comments. -/
def signs : List Char := [':', ';', '\'', '"']

theorem isSteady_of_sign {c : Char} (h : c ∈ signs) : IsSteady c := by
  have row : signs.all (fun c => c.toNat < 128 && !c.isAlpha) = true := by decide
  have ascii := List.all_eq_true.mp row c h
  rw [Bool.and_eq_true, decide_eq_true_eq, Bool.not_eq_true'] at ascii
  exact isSteady_of_ascii ascii.1 ascii.2

theorem upperChar_of_sign {c : Char} (h : c ∈ signs) : upperChar c = [c] :=
  (isSteady_of_sign h).fixed

/-- Upper case leads to no sign from anything else. -/
theorem eq_of_sign_mem {c d : Char} (h : d ∈ upperChar c) (hd : d ∈ signs) : d = c :=
  (isSteady_of_sign hd).only c h

/-- A sign stays in the upper case of a text. -/
theorem mem_upper_of_sign {c : Char} {text : List Char} (h : c ∈ text) (hs : c ∈ signs) :
    c ∈ upper text :=
  List.mem_flatMap.mpr ⟨c, h, by simp [upperChar_of_sign hs]⟩

/-- A sign in the upper case of a text stands in the text itself. -/
theorem exists_of_upper_eq {text front back : List Char} {sign : Char} (hs : sign ∈ signs)
    (h : upper text = front ++ sign :: back) :
    ∃ before after, text = before ++ sign :: after ∧ front = upper before := by
  induction text generalizing front with
  | nil => simp at h
  | cons c rest ih =>
      rw [upper_cons, List.append_eq_append_iff] at h
      obtain ⟨more, rfl, hm⟩ | ⟨more, hc, hm⟩ := h
      · obtain ⟨before, after, rfl, rfl⟩ := ih hm
        exact ⟨c :: before, after, rfl, rfl⟩
      · cases more with
        | nil =>
            have hr : upper rest = [] ++ sign :: back := hm.symm
            obtain ⟨before, after, rfl, hb⟩ := ih hr
            refine ⟨c :: before, after, rfl, ?_⟩
            rw [upper_cons, ← hb, hc, List.append_nil, List.append_nil]
        | cons d more =>
            obtain ⟨rfl, -⟩ := List.cons_eq_cons.mp hm
            have he : sign = c := eq_of_sign_mem (by simp [hc]) hs
            rw [← he, upperChar_of_sign hs] at hc
            have hf : front = [] := by
              cases front with
              | nil => rfl
              | cons _ _ => simp at hc
            exact ⟨[], rest, by rw [he]; rfl, hf⟩

/-! ## word characters -/

/-- No range of letters reaches into one of blanks. -/
theorem letter_row : ∀ r ∈ letterRanges.toList, ∀ b ∈ blankRanges, r.2 < b.1 ∨ b.2 < r.1 := by
  have rows : (letterRanges.toList.all fun r => blankRanges.all fun b =>
      decide (r.2 < b.1) || decide (b.2 < r.1)) = true := by
    decide +kernel
  simpa only [List.all_eq_true, Bool.or_eq_true, decide_eq_true_eq] using rows

/-- A word character is no blank. -/
theorem isBlank_of_isWordChar {c : Char} (h : isWordChar c = true) : isBlank c = false := by
  by_cases hc : c.toNat < 128
  · rw [isWordChar_of_ascii hc] at h
    revert h
    exact forall_ascii (P := fun c => isAsciiWordChar c = true → isBlank c = false)
      (by decide +kernel) hc
  · rw [isWordChar, if_neg hc, Array.any_eq_true'] at h
    obtain ⟨r, hr, hm⟩ := h
    simp only [Bool.and_eq_true, decide_eq_true_eq] at hm
    rw [isBlank, List.any_eq_false]
    intro b hb hin
    simp only [Bool.and_eq_true, decide_eq_true_eq] at hin
    have := letter_row r hr.val b hb
    omega

end Z80Workbench.Text
