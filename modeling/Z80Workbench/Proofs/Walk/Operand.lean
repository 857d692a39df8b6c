import Z80Workbench.Proofs.Expr.Pieces
import Z80Workbench.Proofs.Source.LabelLine
import Z80Workbench.Walk.Breakpoint

/-!
# Z80Workbench.Proofs.Walk.Operand

Operands of conditions, and their values.  Names of registers, identifiers and numerals hold neither
blanks nor the marks of which comparisons are made; a character literal may be such a mark, between
its two quotation marks.  What is neither a register nor a literal is looked up among the symbols,
by a name that the ending `_PRIME` has been taken off.
-/

namespace Z80Workbench

open Text
open Z80Workbench.Expr (isQuote literal? numeral?)
open Source (isIdentifier continuesLabel)

/-- Every register name is listed. -/
theorem RegisterName.mem_all (r : RegisterName) : r ∈ RegisterName.all := by
  cases r with
  | byte x => cases x <;> decide
  | pair p =>
      rcases p with _ | _ | _ | _ | _ | _ | x
      iterate 6 decide
      cases x <;> decide
  | pc => decide
  | shadowByte x => cases x <;> decide
  | shadowPair p => cases p <;> decide

namespace BreakCondition

/-- The ending that stands for an apostrophe. -/
def ending : List Char := "_PRIME".toList

/-- The marks that the signs of comparisons are made of. -/
def marks : List Char := ['=', '!', '>', '<']

/-- A text that can stand in a condition: the name of a register in any letter case, with an
apostrophe or the ending `_PRIME` for a shadow register, an identifier, or a literal. -/
inductive IsOperand : List Char → Prop
  | register {text : List Char} (r : RegisterName) (h : operandName text = r.name.toList) :
      IsOperand text
  | identifier {text : List Char} (h : isIdentifier text) : IsOperand text
  | literal {text : List Char} (h : (literal? text).isSome) (trimmed : trim text = text) :
      IsOperand text

/-- A character that is neither a blank nor a mark. -/
def IsPlain (c : Char) : Prop := isBlank c = false ∧ c ∉ marks

instance (c : Char) : Decidable (IsPlain c) := inferInstanceAs (Decidable (_ ∧ _))

/-- If all characters of a text are plain, each is. -/
theorem forall_isPlain {text : List Char} (h : text.all (fun c => decide (IsPlain c)) = true) :
    ∀ c ∈ text, IsPlain c := by
  simpa only [List.all_eq_true, decide_eq_true_eq] using h

/-- A mark is no blank and no quotation mark, its own upper case, and no part of a label. -/
theorem mark_row : ∀ x ∈ marks, isBlank x = false ∧ isQuote x = false ∧ upperChar x = [x] ∧
    continuesLabel x = false := by
  have row : (marks.all fun x => isBlank x = false ∧ isQuote x = false ∧ upperChar x = [x] ∧
      continuesLabel x = false) = true := by
    decide +kernel
  simpa only [List.all_eq_true, decide_eq_true_eq] using row

theorem isBlank_of_mark {x : Char} (h : x ∈ marks) : isBlank x = false := (mark_row x h).1

theorem isQuote_of_mark {x : Char} (h : x ∈ marks) : isQuote x = false := (mark_row x h).2.1

/-! ## what operands are made of -/

/-- Upper case keeps blanks and marks. -/
theorem mem_upper_of_not_isPlain {c : Char} {text : List Char} (h : ¬ IsPlain c) (hc : c ∈ text) :
    c ∈ upper text := by
  refine Expr.mem_upper hc ?_
  by_cases hm : c ∈ marks
  · exact (mark_row c hm).2.2.1
  · exact upperChar_of_isBlank (by simpa [IsPlain, hm] using h)

/-- If all characters in the upper case of a text are plain, those of the text are. -/
theorem isPlain_of_upper {text : List Char} (h : ∀ c ∈ upper text, IsPlain c) :
    ∀ c ∈ text, IsPlain c := by
  intro c hc
  by_contra hp
  exact hp (h c (mem_upper_of_not_isPlain hp hc))

/-- A name with the ending `_PRIME` is that of a shadow register. -/
theorem operandName_of_ending {text front : List Char} (h : upper text = front ++ ending) :
    operandName text = front ++ ['\''] := by
  have suffix : ending.isSuffixOf (upper text) = true := by
    rw [List.isSuffixOf_iff_suffix, h]
    exact List.suffix_append front ending
  have kept : (upper text).take ((upper text).length - ending.length) = front := by
    rw [h, List.length_append, Nat.add_sub_cancel, List.take_left]
  exact (if_pos suffix).trans (congrArg (· ++ ['\'']) kept)

theorem operandName_of_no_ending {text : List Char} (h : ¬ ending <:+ upper text) :
    operandName text = upper text := by
  rw [← List.isSuffixOf_iff_suffix] at h
  exact if_neg h

theorem operandName_cases (text : List Char) :
    (∃ front, upper text = front ++ ending ∧ operandName text = front ++ ['\'']) ∨
      operandName text = upper text := by
  by_cases suffix : ending <:+ upper text
  · obtain ⟨front, hf⟩ := suffix
    exact .inl ⟨front, hf.symm, operandName_of_ending hf.symm⟩
  · exact .inr (operandName_of_no_ending suffix)

theorem isPlain_of_register {text : List Char} {r : RegisterName}
    (h : operandName text = r.name.toList) : ∀ c ∈ text, IsPlain c := by
  have names : ∀ r ∈ RegisterName.all,
      r.name.toList.all (fun c => decide (IsPlain c)) = true := by
    decide +kernel
  have name : ∀ c ∈ operandName text, IsPlain c :=
    h ▸ forall_isPlain (names r (RegisterName.mem_all r))
  have prime : ∀ c ∈ ending, IsPlain c := forall_isPlain (by decide +kernel)
  refine isPlain_of_upper fun c hc => ?_
  obtain ⟨front, spelled, he⟩ | he := operandName_cases text
  · rw [he] at name
    rw [spelled] at hc
    cases List.mem_append.mp hc with
    | inl hm => exact name c (List.mem_append_left _ hm)
    | inr hm => exact prime c hm
  · exact name c (he ▸ hc)

theorem isPlain_of_identifier {text : List Char} (h : isIdentifier text) :
    ∀ c ∈ text, IsPlain c := by
  intro c hc
  have label : continuesLabel c = true := by
    obtain start | more := Expr.startsLabel_or_continuesLabel h hc
    · exact Source.continuesLabel_of_startsLabel start
    · exact more
  refine ⟨(Source.plain_of_continuesLabel label).1, fun hm => ?_⟩
  rw [(mark_row c hm).2.2.2] at label
  cases label

theorem isPlain_of_numeral {text : List Char} {n : Nat} (h : numeral? (upper text) = some n) :
    ∀ c ∈ text, IsPlain c := by
  refine isPlain_of_upper fun c hc => ?_
  have letters : ∀ c ∈ ['X', 'H', 'B', '&', '#', '$', '%'], IsPlain c :=
    forall_isPlain (by decide +kernel)
  obtain digit | letter := Expr.digit_or_mark_of_mem h hc
  · have ascii : c.toNat < 128 := by
      by_contra beyond
      have low (d : Char) (hd : d.toNat < 128) : ¬ c ≤ d := fun le =>
        beyond (Nat.lt_of_le_of_lt (UInt32.le_iff_toNat_le.mp (Char.le_def.mp le)) hd)
      simp [Expr.digitValue?, low '9' (by decide), low 'F' (by decide)] at digit
    revert digit
    exact forall_ascii (P := fun c => (Expr.digitValue? c).isSome → IsPlain c)
      (by decide +kernel) ascii
  · exact letters c letter

/-- An operand is a character between two quotation marks, or all of it is plain. -/
theorem IsOperand.quoted_or_plain {text : List Char} (h : IsOperand text) :
    (∃ q c, isQuote q = true ∧ text = [q, c, q]) ∨ text ≠ [] ∧ ∀ c ∈ text, IsPlain c := by
  cases h with
  | register r h =>
      refine .inr ⟨?_, isPlain_of_register h⟩
      rintro rfl
      have named : ∀ r ∈ RegisterName.all, r.name.toList ≠ [] := by decide
      exact named r (RegisterName.mem_all r) h.symm
  | identifier h =>
      refine .inr ⟨?_, isPlain_of_identifier h⟩
      rintro rfl
      cases h
  | literal h trimmed =>
      obtain ⟨n, hn⟩ := Option.isSome_iff_exists.mp h
      simp only [literal?, trimmed, Option.or_eq_some_iff] at hn
      obtain hc | ⟨-, hn⟩ := hn
      · exact .inl (Expr.exists_of_character hc)
      · refine .inr ⟨?_, isPlain_of_numeral hn⟩
        rintro rfl
        cases hn

theorem IsOperand.ne_nil {text : List Char} (h : IsOperand text) : text ≠ [] := by
  obtain ⟨q, c, -, rfl⟩ | ⟨ne, -⟩ := h.quoted_or_plain
  · exact List.cons_ne_nil q [c, q]
  · exact ne

/-- No blank stands around an operand. -/
theorem IsOperand.trim_eq {text : List Char} (h : IsOperand text) : trim text = text := by
  obtain ⟨q, c, hq, rfl⟩ | ⟨-, plain⟩ := h.quoted_or_plain
  · exact Expr.trim_quoted hq [c]
  · exact trim_of_plain fun c hc => (plain c hc).1

/-- An operand that holds a mark is the literal of this mark. -/
theorem IsOperand.exists_of_mark {text : List Char} (h : IsOperand text) {x : Char}
    (hx : x ∈ marks) (hm : x ∈ text) : ∃ q, isQuote q = true ∧ text = [q, x, q] := by
  obtain ⟨q, c, hq, rfl⟩ | ⟨-, plain⟩ := h.quoted_or_plain
  · have other : x ≠ q := fun same =>
      Bool.false_ne_true ((isQuote_of_mark hx).symm.trans (same ▸ hq))
    have middle : x = c := by simpa [other] using hm
    exact ⟨q, hq, middle ▸ rfl⟩
  · exact absurd hx (plain x hm).2

/-! ## registers by name -/

/-- The name of an operand is in capital letters. -/
theorem upper_operandName (text : List Char) : upper (operandName text) = operandName text := by
  refine upper_of_fixed fun c hc => ?_
  have fixed : ∀ c ∈ upper text, IsFixed c := fun c hm => by
    obtain ⟨d, -, hd⟩ := List.mem_flatMap.mp hm
    exact fixed_of_mem_upperChar hd
  obtain ⟨front, spelled, he⟩ | he := operandName_cases text
  · rw [he] at hc
    cases List.mem_append.mp hc with
    | inl hm => exact fixed c (spelled ▸ List.mem_append_left _ hm)
    | inr hm =>
        rw [List.mem_singleton.mp hm]
        decide
  · exact fixed c (he ▸ hc)

/-- Only the name of a register reads one. -/
theorem readRegister_of_no_name {m : Machine} {name : String}
    (h : ∀ r : RegisterName, upperString name ≠ r.name) :
    m.readRegister name = .error ⟨upperString name⟩ := by
  have unknown : RegisterName.ofName? (upperString name) = none := by
    rw [RegisterName.ofName?, List.find?_eq_none]
    intro r _ hr
    exact h r (beq_iff_eq.mp hr).symm
  have notAf : upperString name ≠ "AF" := h (.pair .af)
  rw [Machine.readRegister, if_neg notAf, Registers.read]
  simp only [unknown, Option.bind_none]

/-! ## symbols -/

/-- The names of the symbols are in capital letters, not empty, and made of the characters of
labels. -/
def NamesLabels (symbols : Symbols) : Prop :=
  ∀ name ∈ symbols.keys, name ≠ "" ∧ (∀ c ∈ name.toList, continuesLabel c) ∧
    upperString name = name

/-- What a symbol stands for while a program runs: what has been written at its address, or its
value if nothing has been. -/
def current (m : Machine) (value : Int) : Int :=
  ((m.memory.get? (word value)).map Int.ofNat).getD value

/-- A name with a quotation mark is no symbol. -/
theorem symbolValue?_of_quote {m : Machine} {symbols : Symbols} (names : NamesLabels symbols)
    {name : String} {q : Char} (hq : isQuote q = true) (hm : q ∈ name.toList) :
    symbolValue? m symbols name = none := by
  have unbound : symbols.get? name = none := by
    rw [Option.eq_none_iff_forall_ne_some]
    intro value hv
    have listed := (Table.mem_keys_iff symbols name).mpr (by rw [hv]; rfl)
    have plain := Source.isQuote_of_continuesLabel ((names name listed).2.1 q hm)
    rw [hq] at plain
    cases plain
  rw [symbolValue?, unbound]

/-- The name of an operand depends on its upper case only. -/
theorem operandName_congr {text other : List Char} (h : upper text = upper other) :
    operandName text = operandName other := by
  rw [operandName, operandName, h]

/-- A text in another letter case than a name without quotation marks is a literal only if the name
is. -/
theorem literal?_of_upper {text name : List Char} (plain : ∀ c ∈ name, isQuote c = false)
    (spelled : upper text = name) (h : literal? name = none) : literal? text = none := by
  have unquoted : text.any isQuote = false := by
    rw [List.any_eq_false]
    intro q hq mark
    have kept : q ∈ upper text := Expr.mem_upper hq (Expr.isSteady_of_isQuote mark).fixed
    rw [plain q (spelled ▸ kept)] at mark
    cases mark
  have free : ¬ Expr.HoldsLower (trim text) := fun holds =>
    Expr.not_holdsLower_of_part (Expr.not_holdsLower_of_unquoted unquoted)
      (Expr.infix_trim text) holds
  rw [literal?] at h ⊢
  rw [← spelled, trim_upper, upper_upper, Expr.character?_upper free] at h
  exact h

/-- What is neither a register nor a literal is looked up among the symbols. -/
theorem operandValue?_eq_symbolValue? {m : Machine} {symbols : Symbols} {text : String}
    (ne : trim text.toList ≠ [])
    (register : ∀ r : RegisterName, operandName (trim text.toList) ≠ r.name.toList)
    (literal : literal? (trim text.toList) = none) :
    operandValue? m symbols text =
      symbolValue? m symbols (String.ofList (operandName (trim text.toList))) := by
  obtain ⟨c, rest, hc⟩ := List.exists_cons_of_ne_nil ne
  rw [hc] at register literal ⊢
  have capital : upperString (String.ofList (operandName (c :: rest))) =
      String.ofList (operandName (c :: rest)) := by
    rw [upperString, String.toList_ofList, upper_operandName]
  have unknown : ∀ r : RegisterName,
      upperString (String.ofList (operandName (c :: rest))) ≠ r.name := fun r named =>
    register r (by rw [← named, capital, String.toList_ofList])
  simp only [operandValue?, hc, readRegister_of_no_name unknown, literal]

/-- A lone quotation mark has no value. -/
theorem operandValue?_quote {m : Machine} {symbols : Symbols} (names : NamesLabels symbols)
    {q : Char} (hq : isQuote q = true) :
    operandValue? m symbols (String.ofList [q]) = none := by
  have reads : trim [q] = [q] ∧ operandName [q] = [q] ∧ literal? [q] = none ∧
      ∀ r ∈ RegisterName.all, [q] ≠ r.name.toList := by
    simp only [isQuote, Bool.or_eq_true, decide_eq_true_eq] at hq
    rcases hq with rfl | rfl <;> decide +kernel
  obtain ⟨trimmed, name, literal, register⟩ := reads
  have chars : trim (String.ofList [q]).toList = [q] := by rw [String.toList_ofList, trimmed]
  rw [operandValue?_eq_symbolValue?, chars, name]
  · refine symbolValue?_of_quote names hq ?_
    rw [String.toList_ofList]
    exact List.mem_cons_self
  · rw [chars]
    exact List.cons_ne_nil q []
  · intro r
    rw [chars, name]
    exact register r (RegisterName.mem_all r)
  · rw [chars, literal]

theorem symbolValue?_of_bound {m : Machine} {symbols : Symbols} {name : String} {value : Int}
    (bound : symbols.get? name = some value) :
    symbolValue? m symbols name = some (current m value) := by
  rw [symbolValue?, bound, current]
  dsimp only
  cases m.memory.get? (word value) <;> rfl

/-- A symbol whose name is neither that of a register nor a literal has its current value in
conditions, in any letter case, unless the name ends with what stands for an apostrophe: such a name
is never found. -/
theorem operandValue?_symbol (m : Machine) {symbols : Symbols} (names : NamesLabels symbols)
    {name : String} {value : Int} (bound : symbols.get? name = some value)
    (register : ∀ r : RegisterName, operandName name.toList ≠ r.name.toList)
    (literal : literal? name.toList = none) {text : String}
    (spelled : upper (trim text.toList) = name.toList) :
    operandValue? m symbols text =
      if ending <:+ name.toList then none else some (current m value) := by
  have listed : name ∈ symbols.keys := (Table.mem_keys_iff symbols name).mpr (by rw [bound]; rfl)
  obtain ⟨ne, label, capital⟩ := names name listed
  have upperName : upper name.toList = name.toList := by
    have chars := congrArg String.toList capital
    rwa [upperString, String.toList_ofList] at chars
  have same : operandName (trim text.toList) = operandName name.toList :=
    operandName_congr (spelled.trans upperName.symm)
  have some : trim text.toList ≠ [] := by
    intro empty
    rw [empty] at spelled
    exact ne (String.toList_eq_nil_iff.mp spelled.symm)
  have unquoted : ∀ c ∈ name.toList, isQuote c = false := fun c hc =>
    Source.isQuote_of_continuesLabel (label c hc)
  rw [operandValue?_eq_symbolValue? some (fun r => same ▸ register r)
    (literal?_of_upper unquoted spelled literal), same]
  split
  case isTrue suffix =>
      obtain ⟨front, hf⟩ := suffix
      refine symbolValue?_of_quote names (q := '\'') rfl ?_
      rw [operandName_of_ending (upperName.trans hf.symm), String.toList_ofList]
      exact List.mem_append_right _ List.mem_cons_self
  case isFalse other =>
      rw [operandName_of_no_ending (upperName.symm ▸ other), upperName, String.ofList_toList]
      exact symbolValue?_of_bound bound

/-- A byte written at the address of a symbol, whose name is spelled in small letters. -/
theorem operandValue?_symbol_written :
    operandValue? ((Machine.initial {}).store 0xC000 7) ((∅ : Symbols).insert "SCORE" 0xC000)
      " score" = some 7 := by
  have names : NamesLabels ((∅ : Symbols).insert "SCORE" 0xC000) := by
    intro name hn
    obtain rfl : name = "SCORE" := List.mem_singleton.mp hn
    have label : "SCORE".toList.all continuesLabel = true := by decide +kernel
    exact ⟨by decide, List.all_eq_true.mp label, by decide +kernel⟩
  have unnamed : ∀ r ∈ RegisterName.all, operandName "SCORE".toList ≠ r.name.toList := by
    decide +kernel
  have value := operandValue?_symbol ((Machine.initial {}).store 0xC000 7) names rfl
    (fun r => unnamed r (RegisterName.mem_all r)) (by decide +kernel)
    (show upper (trim " score".toList) = "SCORE".toList by decide +kernel)
  have written : ((Machine.initial {}).store 0xC000 7).memory.get? (word 0xC000) = some 7 := by
    rw [Machine.store, Memory.get?_set]
    decide
  rw [value, if_neg (by decide +kernel), current, written]
  rfl

/-- A symbol that no condition can read: its name is taken for that of a shadow register. -/
theorem operandValue?_symbol_unread :
    ((∅ : Symbols).insert "FOO_PRIME" 5).get? "FOO_PRIME" = some 5 ∧
      (∀ r : RegisterName, operandName "FOO_PRIME".toList ≠ r.name.toList) ∧
      literal? "FOO_PRIME".toList = none ∧
      operandValue? (Machine.initial {}) ((∅ : Symbols).insert "FOO_PRIME" 5) "FOO_PRIME" =
        none := by
  have unnamed : ∀ r ∈ RegisterName.all, operandName "FOO_PRIME".toList ≠ r.name.toList := by
    decide +kernel
  exact ⟨by decide +kernel, fun r => unnamed r (RegisterName.mem_all r), by decide +kernel,
    by decide +kernel⟩

end BreakCondition

end Z80Workbench
