import Z80Workbench.Proofs.Expr.LetterCase
import Z80Workbench.Proofs.Source.Labels
import Z80Workbench.Repeat

/-!
# Z80Workbench.Proofs.Source.LabelLine

The line that keeps the labels of a block.  It is read again in the next round of expansion, and
must not be taken for the start or the end of a block then.  Every word on it ends with a colon,
or, where a comment seems to start inside a label, holds a quotation mark; no operation has such a
word.
-/

namespace Z80Workbench.Source

open Text
open Z80Workbench.Expr (isQuote isBlank_of_isQuote sign_of_isQuote)

/-- What a label may look like: it holds no blank, and a semicolon only behind a quotation mark. -/
structure IsLabel (label : List Char) : Prop where
  blank : ∀ c ∈ label, isBlank c = false
  semicolon : ∀ front back, label = front ++ ';' :: back → ∃ c ∈ front, isQuote c

/-- A word that no operation has: it ends with a colon or holds a quotation mark. -/
structure IsTagged (word : List Char) : Prop where
  blank : ∀ c ∈ word, isBlank c = false
  tag : word.getLast? = some ':' ∨ ∃ c ∈ word, isQuote c

/-- Words that no operation has, with a space between any two. -/
inductive Tagged : List Char → Prop
  | word {word : List Char} (h : IsTagged word) : Tagged word
  | cons {word rest : List Char} (h : IsTagged word) (hr : Tagged rest) :
      Tagged (word ++ ' ' :: rest)

/-! ## labels of a line -/

theorem continuesLabel_of_startsLabel {c : Char} (h : startsLabel c = true) :
    continuesLabel c = true := by
  have ascii : c.toNat < 128 := by
    by_contra hc
    have beyond : c ≠ '_' ∧ c ≠ '.' ∧ c ≠ '@' ∧ c ≠ '?' := by
      refine ⟨?_, ?_, ?_, ?_⟩ <;> (rintro rfl; exact hc (by decide))
    have alpha : c.isAlpha = true := by simpa [startsLabel, beyond] using h
    have letter : (decide ('A'.val ≤ c.val ∧ c.val ≤ 'Z'.val) ||
        (decide ('a'.val ≤ c.val) && decide (c.val ≤ 'z'.val))) = true := alpha
    simp only [Bool.or_eq_true, Bool.and_eq_true, decide_eq_true_eq,
      UInt32.le_iff_toNat_le] at letter
    have code : c.toNat = c.val.toNat := rfl
    have last : 'Z'.val.toNat = 90 ∧ 'z'.val.toNat = 122 := by decide
    omega
  revert h
  exact forall_ascii (P := fun c => startsLabel c = true → continuesLabel c = true)
    (by decide +kernel) ascii

/-- A character of a colon label is neither a blank nor a sign. -/
theorem plain_of_continuesLabel {c : Char} (h : continuesLabel c = true) :
    isBlank c = false ∧ c ∉ signs := by
  constructor
  · simp only [continuesLabel, Bool.or_eq_true, decide_eq_true_eq] at h
    rcases h with (((hw | rfl) | rfl) | rfl) | rfl
    · exact isBlank_of_isWordChar hw
    all_goals decide
  · intro hs
    have row : (signs.all fun c => !continuesLabel c) = true := by decide
    have none := List.all_eq_true.mp row c hs
    rw [h] at none
    cases none

theorem isQuote_of_continuesLabel {c : Char} (h : continuesLabel c = true) : isQuote c = false := by
  have hs := (plain_of_continuesLabel h).2
  simp only [signs, List.mem_cons, not_or] at hs
  simp [isQuote, hs]

theorem isLabel_of_continues {label : List Char} (h : ∀ c ∈ label, continuesLabel c) :
    IsLabel label where
  blank c hc := (plain_of_continuesLabel (h c hc)).1
  semicolon front back hl := by
    have hs := (plain_of_continuesLabel (h ';' (by simp [hl]))).2
    exact absurd (by decide) hs

/-- The upper case of a label is one. -/
theorem IsLabel.upper {label : List Char} (h : IsLabel label) : IsLabel (upper label) where
  blank d hd := by
    obtain ⟨c, hc, hd⟩ := List.mem_flatMap.mp hd
    exact not_blank (h.blank c hc) hd
  semicolon front back hl := by
    obtain ⟨before, after, hr, rfl⟩ := exists_of_upper_eq (by decide) hl
    obtain ⟨c, hc, hq⟩ := h.semicolon before after hr
    exact ⟨c, mem_upper_of_sign hc (sign_of_isQuote hq), hq⟩

/-! ## comments -/

/-- In front of a semicolon that starts no comment stands a quotation mark. -/
theorem exists_quote_of_marks {p q : Char} {text : List Char} {front back : List Marked}
    {m : Marked} (h : marksFrom none p q text = front ++ m :: back) (inside : m.outside = false)
    (plain : isQuote m.char = false) : ∃ c ∈ front.map Marked.char, isQuote c := by
  induction text generalizing p q front with
  | nil => simp at h
  | cons c rest ih =>
      simp only [marksFrom] at h
      split at h
      case isTrue hq =>
          rw [Bool.and_eq_true] at hq
          cases front with
          | nil =>
              cases h
              rw [hq.1] at plain
              cases plain
          | cons first more =>
              obtain ⟨rfl, -⟩ := List.cons_eq_cons.mp h
              exact ⟨c, by simp, hq.1⟩
      case isFalse =>
          cases front with
          | nil =>
              cases h
              cases inside
          | cons first more =>
              obtain ⟨-, hr⟩ := List.cons_eq_cons.mp h
              obtain ⟨d, hd, hq⟩ := ih hr
              exact ⟨d, List.mem_cons_of_mem _ hd, hq⟩

theorem exists_quote_of_stripComment {text front back : List Char}
    (h : stripComment text = front ++ ';' :: back) : ∃ c ∈ front, isQuote c := by
  obtain ⟨lead, trail, hk, blank⟩ := exists_of_trim
    (((marks text).takeWhile fun m => !(m.outside && m.char = ';')).map (·.char))
  rw [← stripComment, h, List.append_assoc, List.append_assoc, ← List.append_assoc,
    List.cons_append] at hk
  obtain ⟨before, after, hs, hb, ha⟩ := List.map_eq_append_iff.mp hk
  obtain ⟨m, rest, rfl, hm, -⟩ := List.map_eq_cons_iff.mp ha
  have survives : m ∈ (marks text).takeWhile fun m => !(m.outside && m.char = ';') := by
    rw [hs]
    simp
  have inside : m.outside = false := by simpa [hm] using List.mem_takeWhile_imp survives
  have whole : marksFrom none ' ' ' ' text = before ++ m :: (rest ++
      (marks text).dropWhile fun m => !(m.outside && m.char = ';')) := by
    rw [← List.cons_append, ← List.append_assoc, ← hs, List.takeWhile_append_dropWhile]
    rfl
  obtain ⟨c, hc, hq⟩ := exists_quote_of_marks whole inside (by rw [hm]; decide)
  rw [hb] at hc
  cases List.mem_append.mp hc with
  | inr hf => exact ⟨c, hf, hq⟩
  | inl hl =>
      have hn := isBlank_of_isQuote hq
      rw [blank c hl] at hn
      cases hn

/-! ## colon labels -/

/-- The colons behind a label, and the blanks behind them. -/
theorem exists_of_afterColon {cs rest : List Char} (h : afterColon? cs = some rest) :
    ∃ colons gap, cs = colons ++ gap ++ rest ∧ (colons = [':'] ∨ colons = [':', ':']) ∧
      (∀ c ∈ gap, isBlank c = true) ∧ trimStart rest = rest := by
  have gap : ∀ text : List Char, text = text.takeWhile isBlank ++ trimStart text ∧
      (∀ c ∈ text.takeWhile isBlank, isBlank c = true) ∧
        trimStart (trimStart text) = trimStart text :=
    fun text => ⟨List.takeWhile_append_dropWhile.symm, fun c hc => List.mem_takeWhile_imp hc,
      List.dropWhile_idempotent _ _⟩
  unfold afterColon? at h
  split at h
  case h_1 more =>
      cases h
      exact ⟨[':', ':'], _, by simpa using (gap more).1, .inr rfl, (gap more).2⟩
  case h_2 more _ =>
      cases h
      exact ⟨[':'], _, by simpa using (gap more).1, .inl rfl, (gap more).2⟩
  case h_3 => cases h

/-- A colon label off the front of a text, with its colons and the blanks behind them. -/
theorem exists_of_colonLabel {cs label rest : List Char}
    (h : colonLabel? cs = some (label, rest)) :
    ∃ colons gap, cs = label ++ colons ++ gap ++ rest ∧ (∀ c ∈ label, continuesLabel c = true) ∧
      (colons = [':'] ∨ colons = [':', ':']) ∧ (∀ c ∈ gap, isBlank c = true) ∧
        trimStart rest = rest := by
  cases cs with
  | nil => cases h
  | cons c more =>
      rw [colonLabel?] at h
      split at h
      case isTrue hc =>
          obtain ⟨after, ha, he⟩ := Option.map_eq_some_iff.mp h
          cases he
          obtain ⟨colons, gap, hd, parts⟩ := exists_of_afterColon ha
          refine ⟨colons, gap, ?_, ?_, parts⟩
          · rw [List.append_assoc, List.append_assoc, List.cons_append, ← List.append_assoc colons,
              ← hd, List.takeWhile_append_dropWhile]
          · intro d hd
            cases hd with
            | head => exact continuesLabel_of_startsLabel hc
            | tail _ hd => exact List.mem_takeWhile_imp hd
      case isFalse => cases h

/-- What a colon label takes off the front of a text holds no quotation mark. -/
theorem isQuote_of_colonLabel {label colons gap : List Char}
    (hl : ∀ c ∈ label, continuesLabel c = true) (hc : colons = [':'] ∨ colons = [':', ':'])
    (hg : ∀ c ∈ gap, isBlank c = true) : ∀ c ∈ label ++ colons ++ gap, isQuote c = false := by
  intro c hm
  rw [List.mem_append, List.mem_append] at hm
  rcases hm with (hm | hm) | hm
  · exact isQuote_of_continuesLabel (hl c hm)
  · have colon : c = ':' := by
      rcases hc with rfl | rfl <;> simpa using hm
    rw [colon]
    decide
  · rw [← Bool.not_eq_true]
    intro hq
    have := isBlank_of_isQuote hq
    rw [hg c hm] at this
    cases this

/-- Colon labels are labels, and nothing that is taken off with them holds a quotation mark. -/
theorem exists_of_colonLabels (cs : List Char) :
    (∀ label ∈ (colonLabels cs).1, IsLabel label) ∧
      ∃ front, cs = front ++ (colonLabels cs).2 ∧ ∀ c ∈ front, isQuote c = false := by
  fun_induction colonLabels cs with
  | case1 cs h => exact ⟨List.forall_mem_nil _, [], rfl, List.forall_mem_nil _⟩
  | case2 cs label rest h more ih =>
      obtain ⟨labels, front, hf, plain⟩ := ih
      obtain ⟨colons, gap, he, hl, hc, hg, -⟩ := exists_of_colonLabel h
      refine ⟨?_, label ++ colons ++ gap ++ front, ?_, ?_⟩
      · exact List.forall_mem_cons.mpr ⟨isLabel_of_continues hl, labels⟩
      · rw [List.append_assoc _ front, ← hf]
        exact he
      · exact List.forall_mem_append.mpr ⟨isQuote_of_colonLabel hl hc hg, plain⟩

/-- A bare label is the first word behind the colon labels. -/
theorem label_of_statement {labelled : Bool} {cs label : List Char}
    (h : (statement labelled cs).label = some label) : label = (headWord cs).1 := by
  unfold statement at h
  split at h
  · cases h
  · dsimp only at h
    split at h
    · cases h
    · split at h
      · split at h <;> cases h
        rfl
      · split at h <;> cases h
        rfl

/-- Behind the colon labels of a text that starts with no blank stands no blank. -/
theorem trimStart_colonLabels {cs : List Char} (h : trimStart cs = cs) :
    trimStart (colonLabels cs).2 = (colonLabels cs).2 := by
  fun_induction colonLabels cs with
  | case1 cs => exact h
  | case2 cs label rest found more ih =>
      obtain ⟨_, _, _, _, _, _, trimmed⟩ := exists_of_colonLabel found
      exact ih trimmed

theorem ne_nil_of_mem_colonLabels {cs label : List Char} (h : label ∈ (colonLabels cs).1) :
    label ≠ [] := by
  fun_induction colonLabels cs with
  | case1 cs => exact absurd h List.not_mem_nil
  | case2 cs first rest found more ih =>
      obtain rfl | h := List.mem_cons.mp h
      · cases cs with
        | nil => cases found
        | cons c cs =>
            rw [colonLabel?] at found
            split at found
            · obtain ⟨_, _, he⟩ := Option.map_eq_some_iff.mp found
              cases he
              exact List.cons_ne_nil _ _
            · cases found
      · exact ih h

/-- Every label of a line is the upper case of a text that is not empty. -/
theorem exists_raw_of_parseLine {number : Nat} {text : String} {line : SourceLine}
    (h : parseLine? number text = some line) {label : String} (hl : label ∈ line.labels) :
    ∃ raw, raw ≠ [] ∧ label = String.ofList (upper raw) := by
  unfold parseLine? at h
  split at h
  case h_1 => cases h
  case h_2 =>
      cases h
      obtain ⟨raw, hr, rfl⟩ := List.mem_map.mp hl
      refine ⟨raw, ?_, rfl⟩
      cases List.mem_append.mp hr with
      | inl hcolon => exact ne_nil_of_mem_colonLabels hcolon
      | inr hbare =>
          have hs := Option.mem_toList.mp hbare
          have front : trimStart (stripComment text.toList) = stripComment text.toList :=
            trimStart_trim _
          have trimmed := trimStart_colonLabels front
          rw [label_of_statement hs]
          generalize (colonLabels (stripComment text.toList)).2 = rest at hs trimmed
          cases rest with
          | nil => cases hs
          | cons c rest =>
              rw [trimStart, List.dropWhile_eq_self_iff] at trimmed
              have solid : isBlank c = false := by simpa using trimmed (Nat.zero_lt_succ _)
              simp [headWord, solid]

/-- The labels of a line are labels. -/
theorem isLabel_of_parseLine {number : Nat} {text : String} {line : SourceLine}
    (h : parseLine? number text = some line) {label : String} (hl : label ∈ line.labels) :
    IsLabel label.toList := by
  unfold parseLine? at h
  split at h
  case h_1 => cases h
  case h_2 =>
      cases h
      obtain ⟨raw, hr, rfl⟩ := List.mem_map.mp hl
      rw [String.toList_ofList]
      obtain ⟨labels, front, hf, plain⟩ := exists_of_colonLabels (stripComment text.toList)
      cases List.mem_append.mp hr with
      | inl hcolon => exact (labels raw hcolon).upper
      | inr hbare =>
          have first := label_of_statement (Option.mem_toList.mp hbare)
          have split : (colonLabels (stripComment text.toList)).2 = raw ++
              (colonLabels (stripComment text.toList)).2.dropWhile (!isBlank ·) := by
            rw [first]
            exact List.takeWhile_append_dropWhile.symm
          refine IsLabel.upper ⟨fun c hc => ?_, fun before after he => ?_⟩
          · rw [first] at hc
            simpa using List.mem_takeWhile_imp hc
          · rw [split, he, List.append_assoc, List.cons_append, ← List.append_assoc] at hf
            obtain ⟨c, hc, hq⟩ := exists_quote_of_stripComment hf
            cases List.mem_append.mp hc with
            | inl hm =>
                rw [plain c hm] at hq
                cases hq
            | inr hm => exact ⟨c, hm, hq⟩

/-! ## tagged words -/

/-- No name of an operation holds a sign. -/
theorem operationName_row :
    (∀ m ∈ Mnemonic.all, ∀ c ∈ m.name.toList, c ∉ signs) ∧
      ∀ d ∈ Directive.all, ∀ c ∈ d.name.toList, c ∉ signs := by
  have rows : ((Mnemonic.all.all fun m => m.name.toList.all fun c => decide (c ∉ signs)) &&
      Directive.all.all fun d => d.name.toList.all fun c => decide (c ∉ signs)) = true := by
    decide +kernel
  simpa only [Bool.and_eq_true, List.all_eq_true, decide_eq_true_eq] using rows

/-- No operation has a sign in its word. -/
theorem not_mem_signs_of_isKnown {word : List Char} (h : (operationOf word).isKnown = true) :
    ∀ c ∈ word, c ∉ signs := by
  obtain ⟨mnemonics, directives⟩ := operationName_row
  intro c hc hs
  have hu := mem_upper_of_sign hc hs
  unfold operationOf Operation.ofWord at h
  split at h
  case h_1 m hm =>
      have name := List.find?_some hm
      rw [beq_iff_eq] at name
      refine mnemonics m (List.mem_of_find?_eq_some hm) c ?_ hs
      rwa [name, String.toList_ofList]
  case h_2 =>
      split at h
      case h_1 d hd =>
          have name := List.find?_some hd
          rw [beq_iff_eq] at name
          refine directives d (List.mem_of_find?_eq_some hd) c ?_ hs
          rwa [name, String.toList_ofList]
      case h_2 => cases h

namespace IsTagged

variable {word : List Char} (h : IsTagged word)
include h

/-- No operation has a tagged word. -/
theorem isKnown_operationOf : (operationOf word).isKnown = false := by
  rw [← Bool.not_eq_true]
  intro known
  have plain := not_mem_signs_of_isKnown known
  cases h.tag with
  | inl hl => exact plain ':' (List.mem_of_getLast? hl) (by decide)
  | inr hq =>
      obtain ⟨c, hc, hq⟩ := hq
      exact plain c hc (sign_of_isQuote hq)

theorem ne_nil : word ≠ [] := by
  rintro rfl
  simpa using h.tag

/-- What is left behind characters without a quotation mark is tagged. -/
theorem of_append {front back : List Char} (hw : word = front ++ back)
    (plain : ∀ c ∈ front, isQuote c = false) (hb : back ≠ []) : IsTagged back where
  blank c hc := h.blank c (by simp [hw, hc])
  tag := by
    cases h.tag with
    | inl hl =>
        left
        rwa [hw, List.getLast?_append_of_ne_nil _ hb] at hl
    | inr hq =>
        obtain ⟨c, hc, hq⟩ := hq
        rw [hw] at hc
        cases List.mem_append.mp hc with
        | inl hf =>
            rw [plain c hf] at hq
            cases hq
        | inr hm => exact .inr ⟨c, hm, hq⟩

end IsTagged

namespace Tagged

variable {text : List Char}

/-- The first word and what follows it. -/
theorem exists_word (h : Tagged text) :
    ∃ word tail, text = word ++ tail ∧ IsTagged word ∧
      (tail = [] ∨ ∃ rest, tail = ' ' :: rest ∧ Tagged rest) := by
  cases h with
  | word h => exact ⟨text, [], by simp, h, .inl rfl⟩
  | cons h hr => exact ⟨_, _, rfl, h, .inr ⟨_, rfl, hr⟩⟩

theorem of_word {word tail : List Char} (h : IsTagged word)
    (ht : tail = [] ∨ ∃ rest, tail = ' ' :: rest ∧ Tagged rest) : Tagged (word ++ tail) := by
  obtain rfl | ⟨rest, rfl, hr⟩ := ht
  · simpa using Tagged.word h
  · exact .cons h hr

/-- Tagged words start with no blank. -/
theorem trimStart_eq (h : Tagged text) : trimStart text = text := by
  obtain ⟨word, tail, rfl, hw, -⟩ := h.exists_word
  obtain ⟨c, more, rfl⟩ := List.exists_cons_of_ne_nil hw.ne_nil
  simp [trimStart, hw.blank c List.mem_cons_self]

/-- Tagged words end with no blank. -/
theorem exists_last (h : Tagged text) : ∃ front c, text = front ++ [c] ∧ isBlank c = false := by
  induction h with
  | word h =>
      exact ⟨_, _, (List.dropLast_concat_getLast h.ne_nil).symm,
        h.blank _ (List.getLast_mem h.ne_nil)⟩
  | @cons word rest h hr ih =>
      obtain ⟨front, c, rfl, hc⟩ := ih
      exact ⟨word ++ ' ' :: front, c, by simp, hc⟩

theorem ne_nil (h : Tagged text) : text ≠ [] := by
  obtain ⟨front, c, rfl, -⟩ := h.exists_last
  simp

theorem trim_eq (h : Tagged text) : trim text = text := by
  refine trim_eq_self h.trimStart_eq ?_
  obtain ⟨front, c, rfl, hc⟩ := h.exists_last
  exact trimEnd_concat hc

/-- A colon label off the front leaves nothing or tagged words. -/
theorem of_colonLabel {label rest : List Char} (h : Tagged text)
    (hl : colonLabel? text = some (label, rest)) : rest = [] ∨ Tagged rest := by
  obtain ⟨colons, gap, he, continues, hc, hg, trimmed⟩ := exists_of_colonLabel hl
  obtain ⟨word, tail, rfl, hw, ht⟩ := h.exists_word
  have solid : ∀ c ∈ label ++ colons, isBlank c = false := by
    refine List.forall_mem_append.mpr ⟨fun c hm => (plain_of_continuesLabel (continues c hm)).1, ?_⟩
    rcases hc with rfl | rfl <;> simp <;> decide
  -- the label and its colons lie within the first word
  obtain ⟨more, rfl, hm⟩ : ∃ more, word = label ++ colons ++ more ∧ more ++ tail = gap ++ rest := by
    rw [List.append_assoc, List.append_eq_append_iff] at he
    obtain ⟨more, hs, hm⟩ | ⟨more, hs, hm⟩ := he
    · cases more with
      | nil => exact ⟨[], by simpa using hs.symm, by simpa using hm⟩
      | cons c more =>
          obtain rfl | ⟨rest, rfl, -⟩ := ht
          · cases hm
          · obtain ⟨rfl, -⟩ := List.cons_eq_cons.mp hm
            exact absurd (solid ' ' (by simp [hs])) (by decide)
    · exact ⟨more, hs, hm.symm⟩
  have dropped : trimStart (more ++ tail) = rest := by
    rw [hm, trimStart, List.dropWhile_append_of_pos hg]
    exact trimmed
  by_cases hmore : more = []
  · rw [hmore, List.nil_append] at dropped
    obtain rfl | ⟨others, rfl, ho⟩ := ht
    · exact .inl dropped.symm
    · have spaced : trimStart (' ' :: others) = trimStart others := rfl
      rw [spaced, ho.trimStart_eq] at dropped
      exact .inr (dropped ▸ ho)
  · have plain : ∀ c ∈ label ++ colons ++ [], isQuote c = false :=
      isQuote_of_colonLabel continues hc (List.forall_mem_nil _)
    rw [List.append_nil] at plain
    have left := of_word (hw.of_append rfl plain hmore) ht
    rw [left.trimStart_eq] at dropped
    exact .inr (dropped ▸ left)

/-- All colon labels off the front leave nothing or tagged words. -/
theorem of_colonLabels (h : text = [] ∨ Tagged text) :
    (colonLabels text).2 = [] ∨ Tagged (colonLabels text).2 := by
  fun_induction colonLabels text with
  | case1 text hn => exact h
  | case2 text label rest hl more ih =>
      refine ih ?_
      obtain rfl | h := h
      · cases hl
      · exact h.of_colonLabel hl

/-- The first word is tagged, and so are the others, if there are any. -/
theorem of_headWord (h : Tagged text) :
    IsTagged (headWord text).1 ∧ ((headWord text).2 = [] ∨ Tagged (headWord text).2) := by
  obtain ⟨word, tail, rfl, hw, ht⟩ := h.exists_word
  have solid : ∀ c ∈ word, (!isBlank c) = true := by simpa using hw.blank
  rw [headWord, List.takeWhile_append_of_pos solid, List.dropWhile_append_of_pos solid]
  obtain rfl | ⟨rest, rfl, hr⟩ := ht
  · exact ⟨by simpa using hw, .inl rfl⟩
  · refine ⟨by simpa [show isBlank ' ' = true from rfl] using hw, .inr ?_⟩
    have spaced : trim (' ' :: rest) = rest := hr.trim_eq
    have kept : (' ' :: rest).dropWhile (!isBlank ·) = ' ' :: rest := rfl
    rw [kept, spaced]
    exact hr

/-- Tagged words hold no operation that is known. -/
theorem isKnown_of_statement (h : Tagged text) (labelled : Bool) {operation : Operation}
    (ho : (statement labelled text).operation = some operation) : operation.isKnown = false := by
  obtain ⟨first, rest⟩ := h.of_headWord
  unfold statement at ho
  split at ho
  case h_1 => cases ho
  case h_2 =>
      dsimp only at ho
      rw [if_neg (by simp [first.isKnown_operationOf])] at ho
      split at ho
      case isTrue hne =>
          have second := (rest.resolve_left hne).of_headWord.1
          rw [if_neg (by simp [second.isKnown_operationOf])] at ho
          cases ho
          exact first.isKnown_operationOf
      case isFalse =>
          split at ho
          · cases ho
            exact first.isKnown_operationOf
          · cases ho

end Tagged

/-! ## the label line -/

/-- A label with a colon is a tagged word. -/
theorem IsLabel.isTagged {label : List Char} (h : IsLabel label) : IsTagged (label ++ [':']) where
  blank := by
    refine List.forall_mem_append.mpr ⟨h.blank, ?_⟩
    simp
    decide
  tag := .inl (by simp)

/-- What stands in front of a semicolon in a label is a tagged word. -/
theorem IsLabel.isTagged_front {label front back : List Char} (h : IsLabel label)
    (hl : label ++ [':'] = front ++ ';' :: back) : IsTagged front := by
  obtain ⟨more, rfl, hm⟩ | ⟨more, rfl, hm⟩ := List.append_eq_append_iff.mp hl
  · cases more <;> simp at hm
  · cases more with
    | nil => simp at hm
    | cons c more =>
        obtain ⟨rfl, -⟩ := List.cons_eq_cons.mp hm
        exact ⟨fun c hc => h.blank c (by simp [hc]), .inr (h.semicolon front more rfl)⟩

/-- Labels with colons, and a space between any two. -/
def spaced : List (List Char) → List Char
  | [] => []
  | [label] => label ++ [':']
  | label :: rest => (label ++ [':']) ++ ' ' :: spaced rest

theorem toList_labelLine (labels : List String) :
    (Repeat.labelLine labels).toList = spaced (labels.map String.toList) := by
  induction labels with
  | nil => rfl
  | cons label rest ih =>
      cases rest with
      | nil => simp [Repeat.labelLine, spaced]
      | cons next more =>
          rw [Repeat.labelLine, List.map_cons, List.map_cons, String.intercalate_cons_cons]
          rw [Repeat.labelLine, List.map_cons] at ih
          simp only [String.toList_append, ih]
          simp [spaced]

/-- A line of labels, or what stands in front of a semicolon on it, consists of tagged words. -/
theorem tagged_of_spaced {labels : List (List Char)} (h : ∀ label ∈ labels, IsLabel label)
    (hne : labels ≠ []) {kept dropped : List Char} (he : spaced labels = kept ++ dropped)
    (hd : dropped = [] ∨ ∃ back, dropped = ';' :: back) : Tagged kept := by
  induction labels generalizing kept with
  | nil => contradiction
  | cons label rest ih =>
      have hl := h label List.mem_cons_self
      cases rest with
      | nil =>
          obtain rfl | ⟨back, rfl⟩ := hd
          · rw [List.append_nil] at he
            exact he ▸ .word hl.isTagged
          · exact .word (hl.isTagged_front he)
      | cons next others =>
          obtain ⟨more, rfl, hm⟩ | ⟨more, hm, rfl⟩ := List.append_eq_append_iff.mp he
          · cases more with
            | nil => obtain rfl | ⟨back, rfl⟩ := hd <;> simp at hm
            | cons c more =>
                obtain ⟨rfl, others⟩ := List.cons_eq_cons.mp hm
                exact .cons hl.isTagged
                  (ih (fun other ho => h other (List.mem_cons_of_mem label ho)) (by simp) others)
          · obtain hd | ⟨back, hd⟩ := hd
            · simp at hd
            · cases more with
              | nil => simp at hd
              | cons c more =>
                  obtain ⟨rfl, -⟩ := List.cons_eq_cons.mp hd
                  exact .word (hl.isTagged_front hm)

/-- Without what may look like a comment, a line of labels still consists of tagged words, and
nothing else is taken off it. -/
theorem stripComment_labelLine {labels : List String}
    (h : ∀ label ∈ labels, IsLabel label.toList) (hne : labels ≠ []) :
    Tagged (stripComment (Repeat.labelLine labels).toList) ∧
      ∃ dropped, (Repeat.labelLine labels).toList =
          stripComment (Repeat.labelLine labels).toList ++ dropped ∧
        (dropped = [] ∨ ∃ back, dropped = ';' :: back) := by
  rw [toList_labelLine]
  generalize hs : spaced (labels.map String.toList) = text
  have parts := map_char_marks text
  rw [← List.takeWhile_append_dropWhile (p := fun m => !(m.outside && m.char = ';'))
    (l := marks text), List.map_append] at parts
  have dropped : ((marks text).dropWhile fun m => !(m.outside && m.char = ';')).map (·.char) = [] ∨
      ∃ back, ((marks text).dropWhile fun m => !(m.outside && m.char = ';')).map (·.char) =
        ';' :: back := by
    cases hd : (marks text).dropWhile fun m => !(m.outside && m.char = ';') with
    | nil => exact .inl rfl
    | cons m rest =>
        have comment := List.head_dropWhile_not (fun m : Marked => !(m.outside && m.char = ';'))
          (l := marks text) (hd ▸ List.cons_ne_nil m rest)
        simp only [hd, List.head_cons, Bool.not_eq_false', Bool.and_eq_true,
          decide_eq_true_eq] at comment
        exact .inr ⟨rest.map Marked.char, by rw [List.map_cons, comment.2]⟩
  have tagged := tagged_of_spaced (by simpa using h) (by simpa using hne) (hs.trans parts.symm)
    dropped
  rw [stripComment, tagged.trim_eq]
  exact ⟨tagged, _, parts.symm, dropped⟩

/-- A line of labels holds no operation that is known. -/
theorem isKnown_of_labelLine {labels : List String} (h : ∀ label ∈ labels, IsLabel label.toList)
    {number : Nat} {line : SourceLine}
    (hp : parseLine? number (Repeat.labelLine labels) = some line) {operation : Operation}
    (ho : line.operation = some operation) : operation.isKnown = false := by
  have hne : labels ≠ [] := by
    rintro rfl
    cases hp
  have left := Tagged.of_colonLabels (.inr (stripComment_labelLine h hne).1)
  unfold parseLine? at hp
  split at hp
  case h_1 => cases hp
  case h_2 =>
      cases hp
      obtain hn | ht := left
      · rw [hn] at ho
        cases ho
      · exact ht.isKnown_of_statement _ ho

/-- A line of labels holds no directive. -/
theorem directive?_of_labelLine {labels : List String} (h : ∀ label ∈ labels, IsLabel label.toList)
    {number : Nat} {line : SourceLine}
    (hp : parseLine? number (Repeat.labelLine labels) = some line) : line.directive? = none := by
  unfold SourceLine.directive?
  split
  case h_1 d ho => cases isKnown_of_labelLine h hp ho
  case h_2 => rfl

/-- A line of labels holds no instruction. -/
theorem isInstruction_of_labelLine {labels : List String}
    (h : ∀ label ∈ labels, IsLabel label.toList) {number : Nat} {line : SourceLine}
    (hp : parseLine? number (Repeat.labelLine labels) = some line) :
    line.isInstruction = false := by
  cases ho : line.operation with
  | none => rw [SourceLine.isInstruction, ho, Option.any_none]
  | some operation =>
      have unknown := isKnown_of_labelLine h hp ho
      rw [SourceLine.isInstruction, ho, Option.any_some]
      cases operation with
      | mnemonic m => cases unknown
      | directive d => rfl
      | unknown word => rfl

end Z80Workbench.Source
