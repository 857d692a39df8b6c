import Z80Workbench.Proofs.Expr.LetterCase
import Z80Workbench.Proofs.Source.Labels
import Z80Workbench.Proofs.Text.Lines

/-!
# Z80Workbench.Proofs.Source.Capitals

Lines in capital letters.  In an ASCII text without quotation marks, upper case replaces characters
one by one and moves none: lines end, comments start and words stand at the same places.  So the
capital line has the same labels and the same operation, and its operand text is the upper case of
the one before.
-/

namespace Z80Workbench.Source

open Text
open Z80Workbench.Expr (isQuote isSteady_of_isQuote)

/-! ## plain texts -/

/-- Every character of the text is ASCII, and none is a quotation mark. -/
def Plain (text : List Char) : Prop := ∀ c ∈ text, c.toNat < 128 ∧ isQuote c = false

variable {cs ds : List Char}

theorem Plain.of_subset (h : Plain cs) (hs : ds ⊆ cs) : Plain ds := fun c hc => h c (hs hc)

theorem Plain.tail {c : Char} (h : Plain (c :: cs)) : Plain cs :=
  h.of_subset (List.subset_cons_self c cs)

/-- Upper case replaces the characters of a plain text one by one. -/
theorem upper_cons_of_plain {c : Char} (h : Plain (c :: cs)) :
    upper (c :: cs) = upperAscii c :: upper cs := by
  rw [upper_cons, upperChar_of_ascii (h c List.mem_cons_self).1]
  rfl

theorem upper_eq_map (h : Plain cs) : upper cs = cs.map upperAscii :=
  upper_of_ascii fun c hc => (h c hc).1

/-- An ASCII character is told apart by all that reading a line asks for as its upper case is. -/
theorem upperAscii_reads {c : Char} (h : c.toNat < 128) :
    isLineBreak (upperAscii c) = isLineBreak c ∧ startsLabel (upperAscii c) = startsLabel c ∧
      continuesLabel (upperAscii c) = continuesLabel c ∧ isQuote (upperAscii c) = isQuote c :=
  forall_ascii (P := fun c => isLineBreak (upperAscii c) = isLineBreak c ∧
    startsLabel (upperAscii c) = startsLabel c ∧
    continuesLabel (upperAscii c) = continuesLabel c ∧ isQuote (upperAscii c) = isQuote c)
    (by decide +kernel) h

/-- Only a sign itself becomes the sign in upper case. -/
theorem upperAscii_eq_iff {c sign : Char} (h : c.toNat < 128) (hs : IsSteady sign) :
    upperAscii c = sign ↔ c = sign := by
  constructor
  · intro he
    exact (hs.only c (by rw [upperChar_of_ascii h, he]; exact List.mem_singleton_self _)).symm
  · rintro rfl
    have fixed : upperChar c = [c] := hs.fixed
    rw [upperChar_of_ascii h] at fixed
    exact (List.cons_eq_cons.mp fixed).1

theorem Plain.upper (h : Plain cs) : Plain (upper cs) := by
  intro d hd
  obtain ⟨c, hc, hd⟩ := List.mem_flatMap.mp hd
  rw [upperChar_of_ascii (h c hc).1, List.mem_singleton] at hd
  rw [hd]
  exact ⟨toNat_upperAscii (h c hc).1, by rw [(upperAscii_reads (h c hc).1).2.2.2, (h c hc).2]⟩

/-- What is asked of single characters holds up to the same place in upper case. -/
theorem takeWhile_upper {p : Char → Bool} (h : Plain cs)
    (hp : ∀ c ∈ cs, p (upperAscii c) = p c) : (upper cs).takeWhile p = upper (cs.takeWhile p) := by
  induction cs with
  | nil => rfl
  | cons c rest ih =>
      have later := ih h.tail fun d hd => hp d (List.mem_cons_of_mem c hd)
      rw [upper_cons_of_plain h, List.takeWhile_cons, List.takeWhile_cons,
        hp c List.mem_cons_self, later]
      split
      · rw [upper_cons, upperChar_of_ascii (h c List.mem_cons_self).1]
        rfl
      · rfl

theorem dropWhile_upper {p : Char → Bool} (h : Plain cs)
    (hp : ∀ c ∈ cs, p (upperAscii c) = p c) : (upper cs).dropWhile p = upper (cs.dropWhile p) := by
  induction cs with
  | nil => rfl
  | cons c rest ih =>
      have later := ih h.tail fun d hd => hp d (List.mem_cons_of_mem c hd)
      rw [upper_cons_of_plain h, List.dropWhile_cons, List.dropWhile_cons,
        hp c List.mem_cons_self, later]
      split
      · rfl
      · exact (upper_cons_of_plain h).symm

/-! ## lines -/

/-- The lines of a text, by its first character. -/
theorem splitLines_cons_eq (c : Char) (rest : List Char) :
    splitLines (c :: rest) =
      if c = '\r' ∧ rest.head? = some '\n' then splitLines rest
      else if isLineBreak c then [] :: splitLines rest
      else
        match splitLines rest with
        | [] => [[c]]
        | line :: more => (c :: line) :: more := by
  have next : (rest.foldr (fun c (scan : LineScan) => scan.before c) ⟨none, []⟩).next =
      rest.head? := by
    cases rest <;> rfl
  rw [← next]
  rfl

theorem mem_of_mem_splitLines {c : Char} {line : List Char} (h : line ∈ splitLines cs)
    (hc : c ∈ line) : c ∈ cs := by
  induction cs generalizing line with
  | nil => exact absurd h List.not_mem_nil
  | cons d rest ih =>
      cases hd : isLineBreak d with
      | true =>
          cases splitLines_cons_of_break hd rest with
          | inl hs => exact List.mem_cons_of_mem d (ih (hs ▸ h) hc)
          | inr hs =>
              rw [hs] at h
              cases List.mem_cons.mp h with
              | inl he =>
                  rw [he] at hc
                  cases hc
              | inr hm => exact List.mem_cons_of_mem d (ih hm hc)
      | false =>
          rw [splitLines_cons hd] at h
          split at h
          case h_1 =>
              rw [List.mem_singleton.mp h] at hc
              exact List.mem_singleton.mp hc ▸ List.mem_cons_self
          case h_2 first more he =>
              have mem : first ∈ splitLines rest ∧ ∀ other ∈ more, other ∈ splitLines rest := by
                rw [he]
                exact ⟨List.mem_cons_self, fun other ho => List.mem_cons_of_mem first ho⟩
              cases List.mem_cons.mp h with
              | inl hf =>
                  rw [hf] at hc
                  cases List.mem_cons.mp hc with
                  | inl hcd => exact hcd ▸ List.mem_cons_self
                  | inr hm => exact List.mem_cons_of_mem d (ih mem.1 hm)
              | inr hm => exact List.mem_cons_of_mem d (ih (mem.2 line hm) hc)

/-- A plain text has the same lines in upper case, each in upper case. -/
theorem splitLines_upper (h : Plain cs) : splitLines (upper cs) = (splitLines cs).map upper := by
  induction cs with
  | nil => rfl
  | cons c rest ih =>
      have ascii := (h c List.mem_cons_self).1
      have feed : (upper rest).head? = some '\n' ↔ rest.head? = some '\n' := by
        cases rest with
        | nil => rfl
        | cons d more =>
            rw [upper_cons_of_plain h.tail, List.head?_cons, List.head?_cons, Option.some.injEq,
              Option.some.injEq]
            exact upperAscii_eq_iff (h.tail d List.mem_cons_self).1
              (isSteady_of_ascii (by decide) (by decide))
      have carriage : upperAscii c = '\r' ↔ c = '\r' :=
        upperAscii_eq_iff ascii (isSteady_of_ascii (by decide) (by decide))
      rw [upper_cons_of_plain h, splitLines_cons_eq, splitLines_cons_eq, ih h.tail]
      simp only [feed, carriage, (upperAscii_reads ascii).1]
      split
      · rfl
      split
      · rfl
      · cases splitLines rest with
        | nil => simp [upperChar_of_ascii ascii]
        | cons line more => simp [upperChar_of_ascii ascii]

theorem linesOf_upper {source : String} (h : Plain source.toList) :
    linesOf (upperString source) = (linesOf source).map upperString := by
  rw [linesOf, upperString, String.toList_ofList, splitLines_upper h, linesOf, List.map_map,
    List.map_map]
  refine List.map_congr_left fun line _ => ?_
  simp only [Function.comp_apply, upperString, String.toList_ofList]

theorem plain_of_mem_linesOf {source line : String} (h : Plain source.toList)
    (hl : line ∈ linesOf source) : Plain line.toList := by
  obtain ⟨cs, hc, rfl⟩ := List.mem_map.mp hl
  rw [String.toList_ofList]
  exact h.of_subset fun c hm => mem_of_mem_splitLines hc hm

/-! ## comments -/

/-- Nothing of a plain text is quoted. -/
theorem marks_of_plain (h : Plain cs) : marks cs = cs.map fun c => ⟨c, true⟩ := by
  have all (p q : Char) : marksFrom none p q cs = cs.map fun c => ⟨c, true⟩ := by
    induction cs generalizing p q with
    | nil => rfl
    | cons c rest ih =>
        simp only [marksFrom, (h c List.mem_cons_self).2, Bool.false_and, Bool.false_eq_true,
          if_false, List.map_cons, ih h.tail]
  exact all ' ' ' '

theorem stripComment_of_plain (h : Plain cs) : stripComment cs = trim (cs.takeWhile (· ≠ ';')) := by
  rw [stripComment, marks_of_plain h, List.takeWhile_map, List.map_map]
  congr 1
  simp [Function.comp_def]

theorem stripComment_upper (h : Plain cs) : stripComment (upper cs) = upper (stripComment cs) := by
  rw [stripComment_of_plain h, stripComment_of_plain h.upper, takeWhile_upper h, trim_upper]
  intro c hc
  have same := upperAscii_eq_iff (h c hc).1 (isSteady_of_ascii (c := ';') (by decide) (by decide))
  simp only [ne_eq, same]

/-! ## labels -/

theorem trimStart_plain (h : Plain cs) : Plain (trimStart cs) :=
  h.of_subset (List.dropWhile_suffix _).subset

theorem afterColon?_upper (h : Plain cs) :
    afterColon? (upper cs) = (afterColon? cs).map upper := by
  have colon (c : Char) (hc : c.toNat < 128) : upperAscii c = ':' ↔ c = ':' :=
    upperAscii_eq_iff hc (isSteady_of_ascii (by decide) (by decide))
  cases cs with
  | nil => rfl
  | cons c rest =>
      have first := colon c (h c List.mem_cons_self).1
      rw [upper_cons_of_plain h]
      by_cases hc : c = ':'
      · rw [first.mpr hc, hc]
        cases rest with
        | nil => rfl
        | cons d more =>
            have second := colon d (h.tail d List.mem_cons_self).1
            rw [upper_cons_of_plain h.tail]
            by_cases hd : d = ':'
            · rw [second.mpr hd, hd]
              exact congrArg some (trimStart_upper more)
            · have plain := trimStart_upper (d :: more)
              rw [upper_cons_of_plain h.tail] at plain
              simp [afterColon?, hd, mt second.mp hd, plain]
      · simp [afterColon?, hc, mt first.mp hc]

theorem colonLabel?_upper (h : Plain cs) :
    colonLabel? (upper cs) = (colonLabel? cs).map (Prod.map upper upper) := by
  cases cs with
  | nil => rfl
  | cons c rest =>
      have continues : ∀ d ∈ rest, continuesLabel (upperAscii d) = continuesLabel d :=
        fun d hd => (upperAscii_reads (h.tail d hd).1).2.2.1
      have after : Plain (rest.dropWhile continuesLabel) :=
        h.tail.of_subset (List.dropWhile_suffix _).subset
      rw [upper_cons_of_plain h, colonLabel?, colonLabel?,
        (upperAscii_reads (h c List.mem_cons_self).1).2.1, dropWhile_upper h.tail continues,
        takeWhile_upper h.tail continues, afterColon?_upper after]
      split
      · rw [Option.map_map, Option.map_map]
        refine congrArg (Option.map · _) (funext fun behind => ?_)
        simp [upperChar_of_ascii (h c List.mem_cons_self).1]
      · rfl

/-- The colon labels of a plain text in upper case. -/
theorem colonLabels_upper (h : Plain cs) :
    colonLabels (upper cs) = ((colonLabels cs).1.map upper, upper (colonLabels cs).2) := by
  fun_induction colonLabels cs with
  | case1 cs found =>
      have none := colonLabel?_upper h
      rw [found] at none
      exact colonLabels_of_none none
  | case2 cs label rest found more ih =>
      have some := colonLabel?_upper h
      rw [found] at some
      have behind : Plain rest := h.of_subset fun c hc => (mem_of_mem_colonLabel found).2 hc
      rw [colonLabels_of_colonLabel some, ih behind]
      rfl

/-! ## statements -/

theorem headWord_upper (h : Plain cs) :
    headWord (upper cs) = (upper (headWord cs).1, upper (headWord cs).2) := by
  have blank : ∀ c ∈ cs, (!isBlank (upperAscii c)) = !isBlank c :=
    fun c hc => by rw [isBlank_upperAscii (h c hc).1]
  rw [headWord, headWord, takeWhile_upper h blank, dropWhile_upper h blank, trim_upper]

theorem headWord_subset (cs : List Char) : (headWord cs).1 ⊆ cs ∧ (headWord cs).2 ⊆ cs :=
  ⟨(List.takeWhile_sublist _).subset,
    fun _ hc => (List.dropWhile_suffix _).subset (mem_of_mem_trim hc)⟩

/-- A word is the same operation in either letter case. -/
theorem operationOf_upper (word : List Char) : operationOf (upper word) = operationOf word := by
  rw [operationOf, operationOf, upper_upper]

/-- What is read behind the colon labels, by the first two words. -/
theorem statement_of_ne_nil (hne : cs ≠ []) (labelled : Bool) :
    statement labelled cs =
      if (operationOf (headWord cs).1).isKnown then
        ⟨none, some (operationOf (headWord cs).1), (headWord cs).2⟩
      else if (headWord cs).2 ≠ [] then
        if (operationOf (headWord (headWord cs).2).1).isKnown then
          ⟨some (headWord cs).1, some (operationOf (headWord (headWord cs).2).1),
            (headWord (headWord cs).2).2⟩
        else ⟨none, some (operationOf (headWord cs).1), (headWord cs).2⟩
      else if labelled then ⟨none, some (operationOf (headWord cs).1), []⟩
      else ⟨some (headWord cs).1, none, []⟩ := by
  cases cs with
  | nil => contradiction
  | cons c rest => rfl

theorem statement_upper (h : Plain cs) (labelled : Bool) :
    statement labelled (upper cs) =
      { label := (statement labelled cs).label.map upper
        operation := (statement labelled cs).operation
        args := upper (statement labelled cs).args } := by
  by_cases hne : cs = []
  · rw [hne]
    rfl
  have rest : Plain (headWord cs).2 := h.of_subset (headWord_subset cs).2
  have full : upper cs ≠ [] := mt Expr.upper_eq_nil_iff.mp hne
  rw [statement_of_ne_nil full, statement_of_ne_nil hne]
  simp only [headWord_upper h, headWord_upper rest, operationOf_upper, ne_eq,
    Expr.upper_eq_nil_iff]
  split
  · rfl
  split
  · split <;> rfl
  · split <;> rfl

theorem args_subset (labelled : Bool) (cs : List Char) : (statement labelled cs).args ⊆ cs := by
  by_cases hne : cs = []
  · rw [hne]
    exact List.nil_subset _
  have rest := (headWord_subset cs).2
  have more := (headWord_subset (headWord cs).2).2
  rw [statement_of_ne_nil hne]
  split
  · exact rest
  split
  · split
    · exact List.Subset.trans more rest
    · exact rest
  · split <;> exact List.nil_subset _

/-! ## lines of source -/

variable {text : String}

/-- A plain line has the same labels and the same operation in upper case, and the upper case of
its operand text. -/
theorem parseLine?_upper (h : Plain text.toList) (number : Nat) :
    parseLine? number (upperString text) = (parseLine? number text).map fun line =>
      { line with text := upperString text, args := upperString line.args } := by
  have code : Plain (stripComment text.toList) := h.of_subset fun _ hc => mem_of_mem_stripComment hc
  have behind : Plain (colonLabels (stripComment text.toList)).2 :=
    code.of_subset fun c hc => (mem_of_mem_colonLabels c _).2 hc
  rw [parseLine?, parseLine?, upperString, String.toList_ofList, stripComment_upper h]
  cases hs : stripComment text.toList with
  | nil => rfl
  | cons c rest =>
      rw [hs] at code behind
      have labels := colonLabels_upper code
      have found := statement_upper behind
      have nonempty : upper (c :: rest) ≠ [] :=
        mt Expr.upper_eq_nil_iff.mp (List.cons_ne_nil c rest)
      obtain ⟨d, ds, hd⟩ := List.exists_cons_of_ne_nil nonempty
      rw [hd] at labels ⊢
      have bare (label : Option (List Char)) :
          (label.map upper).toList = label.toList.map upper := by
        cases label <;> rfl
      have twice : (fun label => String.ofList (upper label)) ∘ upper =
          fun label => String.ofList (upper label) := by
        funext label
        rw [Function.comp_apply, upper_upper]
      simp only [labels, ne_eq, List.map_eq_nil_iff, found, Option.map_some, Option.some.injEq,
        SourceLine.mk.injEq, true_and]
      rw [List.map_append, List.map_append, bare, List.map_map, List.map_map, twice, upperString,
        String.toList_ofList]
      exact ⟨rfl, rfl⟩

/-- The operand text of a plain line is plain. -/
theorem plain_args (h : Plain text.toList) {number : Nat} {line : SourceLine}
    (hl : parseLine? number text = some line) : Plain line.args.toList := by
  unfold parseLine? at hl
  split at hl
  · cases hl
  · cases hl
    rw [String.toList_ofList]
    exact h.of_subset fun c hc =>
      mem_of_mem_stripComment ((mem_of_mem_colonLabels c _).2 (args_subset _ _ hc))

end Z80Workbench.Source
