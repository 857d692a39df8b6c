import Z80Workbench.Proofs.Assembly.Rewording
import Z80Workbench.Proofs.Code.Rewriting
import Z80Workbench.Proofs.Source.Capitals

/-!
# Z80Workbench.Proofs.Assembly.LetterCase

Sources in capital letters.  Outside quotes nothing tells small letters from capital ones: operands
are split at the same places and addressed in the same way, and their expressions have the same
values.  So a source without quotation marks has, in capital letters, the same analysis but for the
texts that quote its lines.
-/

namespace Z80Workbench

open Text Source
open Z80Workbench.Expr (isQuote)

variable {cs text : List Char}

/-! ## expressions -/

/-- The expression with its text in capital letters. -/
def Expr.upper (e : Expr) : Expr := { e with text := upperString e.text }

theorem Expr.keepsValues_upper : KeepsValues Expr.upper := fun _ _ => rfl

theorem Expr.upper_zeroOffset : Mode.zeroOffset.upper = Mode.zeroOffset := by decide

theorem Expr.upper_empty : (Expr.ofString "").upper = Expr.ofString "" := by decide

/-- A plain text is the same expression in capital letters, but for its own text. -/
theorem Expr.read_upper_of_plain (h : Plain text) : read (Text.upper text) = (read text).upper := by
  have unquoted : text.any isQuote = false := by
    rw [List.any_eq_false]
    intro c hc
    rw [(h c hc).2]
    exact Bool.false_ne_true
  rw [read_upper (not_holdsLower_of_unquoted unquoted), Expr.upper, upperString]
  simp only [read, String.toList_ofList]

/-! ## splitting operands -/

namespace Source

theorem pushFront_upper {c : Char} (h : c.toNat < 128) (pieces : List (List Char)) :
    pushFront (upperAscii c) (pieces.map upper) = (pushFront c pieces).map upper := by
  cases pieces <;> simp [pushFront, upperChar_of_ascii h]

theorem dataPieces_of_plain (h : Plain cs) : dataPieces none cs = splitAt ',' cs := by
  induction cs with
  | nil => rfl
  | cons c rest ih =>
      have plain := (h c List.mem_cons_self).2
      simp only [dataPieces, plain, Bool.false_eq_true, if_false, splitAt, ih h.tail]

theorem splitData_upper (h : Plain cs) : splitData (upper cs) = (splitData cs).map upper := by
  have comma : IsSteady ',' := isSteady_of_ascii (by decide) (by decide)
  rw [splitData, splitData, dataPieces_of_plain h, dataPieces_of_plain h.upper,
    Expr.splitAt_upper comma, List.map_map, List.map_map]
  exact List.map_congr_left fun piece _ => trim_upper piece

theorem plain_of_mem_splitData (h : Plain cs) {token : List Char} (ht : token ∈ splitData cs) :
    Plain token := by
  rw [splitData, dataPieces_of_plain h] at ht
  obtain ⟨piece, hp, rfl⟩ := List.mem_map.mp ht
  exact h.of_subset fun c hc => (Expr.infix_of_mem_splitAt hp).subset (mem_of_mem_trim hc)

theorem quotedText?_of_plain (h : Plain cs) : quotedText? cs = none := by
  cases cs with
  | nil => rfl
  | cons c rest => rw [quotedText?, (h c List.mem_cons_self).2]; rfl

/-- Signs by which operands are taken apart. -/
theorem isSteady_of_bracket {sign : Char} (h : sign ∈ [',', '(', ')', '+', '-', '\n']) :
    IsSteady sign := by
  have row : [',', '(', ')', '+', '-', '\n'].all (fun c => c.toNat < 128 && !c.isAlpha) = true := by
    decide
  have ascii := List.all_eq_true.mp row sign h
  rw [Bool.and_eq_true, decide_eq_true_eq, Bool.not_eq_true'] at ascii
  exact isSteady_of_ascii ascii.1 ascii.2

theorem upperAscii_eq_bracket (sign : Char) (hs : sign ∈ [',', '(', ')', '+', '-', '\n'])
    {c : Char} (h : c.toNat < 128) : upperAscii c = sign ↔ c = sign :=
  upperAscii_eq_iff h (isSteady_of_bracket hs)

theorem operandPieces_upper (h : Plain cs) (depth : Nat) :
    operandPieces depth (marks (upper cs)) = (operandPieces depth (marks cs)).map upper := by
  rw [marks_of_plain h, marks_of_plain h.upper]
  induction cs generalizing depth with
  | nil => rfl
  | cons c rest ih =>
      have ascii := (h c List.mem_cons_self).1
      rw [upper_cons_of_plain h]
      simp only [List.map_cons, operandPieces, Bool.true_and,
        upperAscii_eq_bracket ',' (by decide) ascii, upperAscii_eq_bracket '(' (by decide) ascii,
        upperAscii_eq_bracket ')' (by decide) ascii, ih h.tail]
      split
      · rfl
      · exact pushFront_upper ascii _

theorem mem_of_mem_pushFront {c d : Char} {pieces : List (List Char)} {piece : List Char}
    (h : piece ∈ pushFront c pieces) (hd : d ∈ piece) : d = c ∨ ∃ other ∈ pieces, d ∈ other := by
  cases pieces with
  | nil =>
      rw [pushFront, List.mem_singleton] at h
      rw [h, List.mem_singleton] at hd
      exact .inl hd
  | cons first more =>
      cases List.mem_cons.mp h with
      | inl he =>
          rw [he] at hd
          exact (List.mem_cons.mp hd).imp_right fun hm => ⟨first, List.mem_cons_self, hm⟩
      | inr hm => exact .inr ⟨piece, List.mem_cons_of_mem first hm, hd⟩

theorem mem_of_mem_operandPieces {depth : Nat} {marked : List Marked} {piece : List Char} {c : Char}
    (h : piece ∈ operandPieces depth marked) (hc : c ∈ piece) : c ∈ marked.map (·.char) := by
  induction marked generalizing depth piece with
  | nil =>
      rw [operandPieces, List.mem_singleton] at h
      rw [h] at hc
      cases hc
  | cons m rest ih =>
      rw [operandPieces] at h
      split at h
      · cases List.mem_cons.mp h with
        | inl he =>
            rw [he] at hc
            cases hc
        | inr hm => exact List.mem_cons_of_mem _ (ih hm hc)
      · obtain rfl | ⟨other, ho, hm⟩ := mem_of_mem_pushFront h hc
        · exact List.mem_cons_self
        · exact List.mem_cons_of_mem _ (ih ho hm)

theorem splitOperands_upper (h : Plain cs) :
    splitOperands (upper cs) = (splitOperands cs).map upper := by
  rw [splitOperands, splitOperands, trim_upper, operandPieces_upper h]
  simp only [Expr.upper_eq_nil_iff]
  split
  · rfl
  · rw [List.map_map, List.map_map]
    exact List.map_congr_left fun piece _ => trim_upper piece

theorem plain_of_mem_splitOperands (h : Plain cs) {token : List Char}
    (ht : token ∈ splitOperands cs) : Plain token := by
  rw [splitOperands] at ht
  split at ht
  · cases ht
  · obtain ⟨piece, hp, rfl⟩ := List.mem_map.mp ht
    refine h.of_subset fun c hc => ?_
    rw [← map_char_marks cs]
    exact mem_of_mem_operandPieces hp (mem_of_mem_trim hc)

end Source

/-! ## operands -/

namespace Operand

theorem closesAtEnd_upper (h : Plain cs) (depth : Int) :
    closesAtEnd depth (marks (upper cs)) = closesAtEnd depth (marks cs) := by
  rw [marks_of_plain h, marks_of_plain h.upper]
  induction cs generalizing depth with
  | nil => rfl
  | cons c rest ih =>
      have ascii := (h c List.mem_cons_self).1
      rw [upper_cons_of_plain h]
      simp only [List.map_cons, closesAtEnd, Bool.true_and,
        upperAscii_eq_bracket '(' (by decide) ascii, upperAscii_eq_bracket ')' (by decide) ascii,
        ih h.tail, ne_eq,
        List.map_eq_nil_iff, Expr.upper_eq_nil_iff]

theorem enclosed?_upper (h : Plain cs) : enclosed? (upper cs) = (enclosed? cs).map upper := by
  have first : (upper cs).head? = some '(' ↔ cs.head? = some '(' := by
    cases cs with
    | nil => rfl
    | cons c rest =>
        rw [upper_cons_of_plain h, List.head?_cons, List.head?_cons, Option.some.injEq,
          Option.some.injEq, upperAscii_eq_bracket '(' (by decide) (h c List.mem_cons_self).1]
  have last : (upper cs).getLast? = some ')' ↔ cs.getLast? = some ')' := by
    rw [upper_eq_map h, List.getLast?_map]
    cases hl : cs.getLast? with
    | none => rfl
    | some c =>
        rw [Option.map_some, Option.some.injEq, Option.some.injEq,
          upperAscii_eq_bracket ')' (by decide) (h c (List.mem_of_getLast? hl)).1]
  have inner : trim ((upper cs).drop 1).dropLast = upper (trim (cs.drop 1).dropLast) := by
    have part : Plain (cs.drop 1).dropLast :=
      h.of_subset fun c hc => List.mem_of_mem_drop (List.dropLast_subset _ hc)
    rw [upper_eq_map h, ← List.map_drop, ← List.map_dropLast, ← upper_eq_map part, trim_upper]
  rw [enclosed?, enclosed?, closesAtEnd_upper h, inner]
  simp only [first, last]
  split <;> rfl

/-- The letters of an index register, in either case. -/
theorem indexLetter_upper {c : Char} (h : c.toNat < 128) :
    isLetterI (upperAscii c) = isLetterI c ∧
      (upperAscii c = 'X' ∨ upperAscii c = 'x' ↔ c = 'X' ∨ c = 'x') ∧
      (upperAscii c = 'Y' ∨ upperAscii c = 'y' ↔ c = 'Y' ∨ c = 'y') :=
  forall_ascii (P := fun c => isLetterI (upperAscii c) = isLetterI c ∧
    (upperAscii c = 'X' ∨ upperAscii c = 'x' ↔ c = 'X' ∨ c = 'x') ∧
    (upperAscii c = 'Y' ∨ upperAscii c = 'y' ↔ c = 'Y' ∨ c = 'y')) (by decide +kernel) h

/-- An index register is read alike in capital letters, and so is its offset. -/
theorem indexed?_upper (h : Plain cs) :
    indexed? (upper cs) = (indexed? cs).map (Mode.map Expr.upper) := by
  match cs, h with
  | [], _ => rfl
  | [c], h => rw [upper_cons_of_plain h]; rfl
  | i :: n :: rest, h =>
      obtain ⟨first, -, -⟩ := indexLetter_upper (h i List.mem_cons_self).1
      obtain ⟨-, isX, isY⟩ := indexLetter_upper (h.tail n List.mem_cons_self).1
      have behind : Plain (trimStart rest) := trimStart_plain h.tail.tail
      rw [upper_cons_of_plain h, upper_cons_of_plain h.tail]
      simp only [indexed?, first, isX, isY, trimStart_upper]
      generalize (if n = 'X' ∨ n = 'x' then some Index.ix
        else if n = 'Y' ∨ n = 'y' then some Index.iy else none) = x?
      generalize trimStart rest = rest at behind
      cases isLetterI i with
      | false => rfl
      | true =>
          cases x? with
          | none => rfl
          | some x =>
              cases rest with
              | nil => rfl
              | cons sign after =>
                  have ascii := (behind sign List.mem_cons_self).1
                  have offset : Plain (sign :: trim (trimStart after)) :=
                    behind.of_subset fun c hc => (List.mem_cons.mp hc).elim
                      (fun he => he ▸ List.mem_cons_self) fun hm => List.mem_cons_of_mem sign
                        ((List.dropWhile_suffix _).subset (mem_of_mem_trim hm))
                  have feed : '\n' ∈ upper (trimStart after) ↔ '\n' ∈ trimStart after := by
                    rw [← List.contains_iff_mem, ← List.contains_iff_mem,
                      Expr.contains_upper (isSteady_of_bracket (by decide))]
                  have read : Expr.read (upperAscii sign :: upper (trim (trimStart after))) =
                      (Expr.read (sign :: trim (trimStart after))).upper := by
                    rw [← Expr.read_upper_of_plain offset, upper_cons_of_plain offset]
                  rw [upper_cons_of_plain behind]
                  simp only [trimStart_upper, trim_upper, read, feed,
                    upperAscii_eq_bracket '+' (by decide) ascii,
                    upperAscii_eq_bracket '-' (by decide) ascii, ne_eq, Expr.upper_eq_nil_iff]
                  split <;> rfl

theorem modeInside_upper (h : Plain cs) :
    modeInside (upper cs) = (modeInside cs).map Expr.upper := by
  rw [modeInside, modeInside, upper_upper, indexed?_upper h, Expr.read_upper_of_plain h]
  split
  · rfl
  · cases indexed? cs <;> rfl

theorem modeOf_upper (h : Plain cs) : modeOf (upper cs) = (modeOf cs).map Expr.upper := by
  rw [modeOf, modeOf, upper_upper, enclosed?_upper h, Expr.read_upper_of_plain h]
  split
  · rfl
  split
  · rfl
  · cases he : enclosed? cs with
    | none => rfl
    | some inner =>
        have part : Plain inner := by
          rw [enclosed?] at he
          split at he
          · cases he
            exact h.of_subset fun c hc => List.mem_of_mem_drop
              (List.dropLast_subset _ (mem_of_mem_trim hc))
          · cases he
        exact modeInside_upper part

/-- An operand in capital letters is addressed as before. -/
theorem mode_parse_upper (h : Plain cs) :
    (parse (upper cs)).mode = (parse cs).mode.map Expr.upper := by
  have part : Plain (trim cs) := h.of_subset fun _ hc => mem_of_mem_trim hc
  rw [parse, parse, trim_upper, modeOf_upper part]

end Operand

/-! ## instructions -/

namespace Instruction

theorem splitCondition_upper (m : Mnemonic) (parts : List (List Char)) :
    splitCondition m (parts.map upper) =
      ((splitCondition m parts).1, (splitCondition m parts).2.map upper) := by
  cases parts with
  | nil => rfl
  | cons first rest =>
      simp only [List.map_cons, splitCondition, upper_upper, List.length_cons, List.length_map]
      split
      · split <;> rfl
      · rfl

theorem splitCondition_subset (m : Mnemonic) (parts : List (List Char)) :
    (splitCondition m parts).2 ⊆ parts := by
  cases parts with
  | nil => exact List.Subset.refl _
  | cons first rest =>
      simp only [splitCondition]
      split
      · split
        · exact List.subset_cons_self first rest
        · exact List.Subset.refl _
      · exact List.Subset.refl _

/-- The operands of an instruction in capital letters are those before, with their expressions in
capital letters. -/
theorem rewrites_upper (h : Plain cs) (operation : Operation) :
    Rewrites Expr.upper (ofArgs operation cs) (ofArgs operation (upper cs)) := by
  have modes {parts : List (List Char)} (sub : parts ⊆ splitOperands cs) :
      ((parts.map upper).map Operand.parse).map (·.mode) =
        (parts.map Operand.parse).map (·.mode.map Expr.upper) := by
    simp only [List.map_map]
    exact List.map_congr_left fun token ht =>
      Operand.mode_parse_upper (plain_of_mem_splitOperands h (sub ht))
  cases operation with
  | mnemonic m =>
      refine ⟨rfl, ?_, ?_⟩ <;>
        simp only [ofArgs, splitOperands_upper h, splitCondition_upper]
      exact modes (splitCondition_subset m _)
  | directive d | unknown word =>
      refine ⟨rfl, rfl, ?_⟩
      simp only [ofArgs, splitOperands_upper h]
      exact modes (List.Subset.refl _)

end Instruction

/-! ## operand texts -/

theorem Mnemonic.estimate_upper (m : Mnemonic) (cs : List Char) :
    m.estimate (upper cs) = m.estimate cs := by
  unfold estimate
  rw [Expr.contains_upper (isSteady_of_bracket (by decide)), upper_upper]

/-- No pass tells an operand text from its upper case. -/
theorem argsAlike_upper (h : Plain cs) : ArgsAlike cs (upper cs) where
  value scope := by rw [Expr.read_upper_of_plain h, Expr.keepsValues_upper]
  items := by
    rw [splitData_upper h, List.forall₂_map_right_iff]
    refine List.forall₂_same.mpr fun token ht => ?_
    have plain := plain_of_mem_splitData h ht
    exact ⟨by rw [quotedText?_of_plain plain, quotedText?_of_plain plain.upper],
      fun scope => by rw [Expr.read_upper_of_plain plain, Expr.keepsValues_upper]⟩
  code operation ctx := ((Instruction.rewrites_upper h operation).encode Expr.keepsValues_upper
    Expr.upper_zeroOffset Expr.upper_empty).symm
  estimate m := (m.estimate_upper cs).symm
  cycles operation := (Instruction.rewrites_upper h operation).cycles.symm

theorem Repeat.readsAlike_upper {text : String} (h : Plain text.toList) :
    ReadsAlike text (upperString text) := by
  intro number
  rw [parseLine?_upper h]
  cases hl : parseLine? number text with
  | none => exact .none
  | some line =>
      refine .some ⟨rfl, rfl, rfl, ?_⟩
      show ArgsAlike line.args.toList (upperString line.args).toList
      rw [upperString, String.toList_ofList]
      exact argsAlike_upper (plain_args h hl)

theorem Repeat.readsAlike_refl (text : String) : ReadsAlike text text := by
  intro number
  cases parseLine? number text with
  | none => exact .none
  | some line => exact .some (.refl line)

namespace Analysis

/-- **Letter case does not matter outside quotes.** A source of plain ASCII characters without
quotation marks, and the same source in capital letters, have the same symbols and line addresses,
the same code and data, the same findings and entry line, the same steps but for their operand
texts, and as many errors and warnings, whatever the settings are. -/
theorem ofSource_upper (settings : Settings) {source : String}
    (plain : ∀ c ∈ source.toList, c.toNat < 128 ∧ c ≠ '\'' ∧ c ≠ '"') (file : String) :
    (ofSource settings source file).Alike (ofSource settings (upperString source) file) := by
  have plain : Plain source.toList := fun c hc => by
    obtain ⟨ascii, single, double⟩ := plain c hc
    exact ⟨ascii, by simp [isQuote, single, double]⟩
  refine ofSource_alike Repeat.readsAlike_refl (fun _ _ h => h) ?_ settings file
  rw [linesOf_upper plain, List.forall₂_map_right_iff]
  exact List.forall₂_same.mpr fun line hl =>
    Repeat.readsAlike_upper (plain_of_mem_linesOf plain hl)

/-- A label, an index register and an unknown name, each in small and capital letters. -/
def mixedCase : String := "loop:\n ld a,(Ix+off)\n Jr LOOP\nOff equ 0x1f\n jp Missing"

/-- A text in both letter cases has the steps of its upper case, and an error in both. -/
theorem ofSource_upper_mixedCase :
    (ofSource {} mixedCase "").steps.map Step.outline =
      (ofSource {} (upperString mixedCase) "").steps.map Step.outline ∧
    (ofSource {} mixedCase "").steps.length = 3 ∧
    (ofSource {} (upperString mixedCase) "").diagnostics.errors.length = 1 := by
  have plain : ∀ c ∈ mixedCase.toList, c.toNat < 128 ∧ c ≠ '\'' ∧ c ≠ '"' := by
    have checked : mixedCase.toList.all
        (fun c => decide (c.toNat < 128 ∧ c ≠ '\'' ∧ c ≠ '"')) = true := by decide +kernel
    simpa only [List.all_eq_true, decide_eq_true_iff] using checked
  have alike := ofSource_upper {} plain ""
  have counts : (ofSource {} mixedCase "").steps.length = 3 ∧
      (ofSource {} mixedCase "").diagnostics.errors.length = 1 := by decide +kernel
  exact ⟨alike.steps, counts.1, alike.errors ▸ counts.2⟩

end Analysis

end Z80Workbench
