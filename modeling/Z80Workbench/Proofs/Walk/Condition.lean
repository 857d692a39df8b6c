import Mathlib.Data.List.Chain
import Mathlib.Data.List.Infix
import Z80Workbench.Proofs.Expr.Formula
import Z80Workbench.Proofs.Walk.Operand

/-!
# Z80Workbench.Proofs.Walk.Condition

Conditions as text.  A condition is searched for one sign after another, and cut at the first
occurrence of the first sign that it holds.  The marks of a sign of two never stand side by side in
an operand, so that such a sign is found where it stands; a single mark may be met earlier, in a
character literal, which leaves a quotation mark for an operand.
-/

namespace Z80Workbench

open Text
open Z80Workbench.Expr (isQuote)
open Formula (Blanks)

namespace Comparison

theorem sign_injective {d e : Comparison} (h : d.sign.toList = e.sign.toList) : d = e := by
  cases d <;> cases e <;> first | rfl | exact absurd h (by decide)

/-- Whether a sign is found between two texts: if it is a single mark, neither this mark in front of
it nor one that is searched for earlier stands in them. -/
def StandsOut (front back : List Char) : Comparison → Prop
  | gt => '>' ∉ front
  | lt => '>' ∉ front ∧ '<' ∉ front ∧ '>' ∉ back
  | _ => True

instance (front back : List Char) : DecidablePred (StandsOut front back)
  | gt => inferInstanceAs (Decidable (_ ∉ _))
  | lt => inferInstanceAs (Decidable (_ ∧ _))
  | eq | ne | ge | le => inferInstanceAs (Decidable True)

end Comparison

namespace BreakCondition

/-- A condition with white space of any kind on either side of its sign. -/
def spelled (c : BreakCondition) (before after : Blanks) : String :=
  String.ofList (c.left.toList ++ before.val ++ c.comparison.sign.toList ++
    (after.val ++ c.right.toList))

theorem text_eq_spelled (c : BreakCondition) : c.text = c.spelled .space .space := by
  rw [← String.toList_inj, spelled, String.toList_ofList]
  simp [text, Blanks.space]

/-- Whether a condition can be read back: its sign is found where it stands. -/
def Readable (c : BreakCondition) : Prop :=
  c.comparison.StandsOut c.left.toList c.right.toList

instance (c : BreakCondition) : Decidable c.Readable :=
  inferInstanceAs (Decidable (c.comparison.StandsOut _ _))

/-! ## the first occurrence of a piece -/

theorem splitAround?_of_no_part {piece text : List Char} (h : ¬ piece <:+: text) :
    splitAround? piece text = none := by
  induction text with
  | nil => rfl
  | cons c rest ih =>
      rw [List.infix_cons_iff, not_or] at h
      rw [splitAround?, if_neg fun hp => h.1 (List.isPrefixOf_iff_prefix.mp hp), ih h.2]
      rfl

/-- A text is split around a piece that starts nowhere earlier. -/
theorem splitAround?_append {piece front : List Char} (ne : piece ≠ [])
    (h : ¬ piece <:+: front ++ piece.dropLast) (back : List Char) :
    splitAround? piece (front ++ piece ++ back) = some (front, back) := by
  induction front with
  | nil =>
      obtain ⟨c, rest, rfl⟩ := List.exists_cons_of_ne_nil ne
      rw [List.nil_append, List.cons_append, splitAround?, if_pos, ← List.cons_append,
        List.drop_left]
      exact List.isPrefixOf_iff_prefix.mpr ⟨back, rfl⟩
  | cons c front ih =>
      rw [List.cons_append, List.infix_cons_iff, not_or] at h
      rw [List.cons_append, List.cons_append, splitAround?, if_neg, ih h.2]
      · rfl
      · intro hp
        -- an occurrence at the start ends before the piece does
        refine h.1 (List.prefix_of_prefix_length_le (List.isPrefixOf_iff_prefix.mp hp) ?_ ?_)
        · have init := List.dropLast_prefix piece
          obtain ⟨last, hl⟩ := init
          refine ⟨last ++ back, ?_⟩
          simp only [List.cons_append, List.append_assoc, List.cons.injEq, true_and,
            List.append_cancel_left_eq]
          rw [← List.append_assoc, hl]
        · have pos := List.length_pos_of_ne_nil ne
          simp only [List.length_cons, List.length_append, List.length_dropLast]
          omega

/-! ## marks that stand alone -/

/-- What holds of neighbours in a text holds of two characters that stand side by side in it. -/
theorem rel_of_isChain {R : Char → Char → Prop} {text : List Char} {x y : Char}
    (h : text.IsChain R) (inside : [x, y] <:+: text) : R x y := by
  obtain ⟨front, back, rfl⟩ := inside
  have pair := (List.isChain_append.mp (List.isChain_append.mp h).1).2.1
  exact List.isChain_pair.mp pair

/-- No two marks stand side by side, and none at an end. -/
structure Isolated (cs : List Char) : Prop where
  apart : cs.IsChain fun a b => a ∉ marks ∨ b ∉ marks
  head : ∀ c ∈ cs.head?, c ∉ marks
  last : ∀ c ∈ cs.getLast?, c ∉ marks

variable {front back : List Char}

theorem Isolated.of_free {cs : List Char} (h : ∀ c ∈ cs, c ∉ marks) : Isolated cs where
  apart := by
    rw [List.isChain_iff_getElem]
    exact fun i _ => .inl (h _ (List.getElem_mem _))
  head c hc := h c (List.mem_of_mem_head? hc)
  last c hc := h c (List.mem_of_mem_getLast? hc)

theorem Isolated.append (hf : Isolated front) (hb : Isolated back) : Isolated (front ++ back) where
  apart := List.isChain_append.mpr
    ⟨hf.apart, hb.apart, fun _ _ c hc => .inr (hb.head c hc)⟩
  head c hc := by
    rw [List.head?_append, Option.mem_def, Option.or_eq_some_iff] at hc
    obtain hc | ⟨-, hc⟩ := hc
    · exact hf.head c hc
    · exact hb.head c hc
  last c hc := by
    rw [List.getLast?_append, Option.mem_def, Option.or_eq_some_iff] at hc
    obtain hc | ⟨-, hc⟩ := hc
    · exact hb.last c hc
    · exact hf.last c hc

/-- A character stands alone behind a text. -/
theorem Isolated.isChain_concat (hf : Isolated front) (c : Char) :
    (front ++ [c]).IsChain fun a b => a ∉ marks ∨ b ∉ marks :=
  List.isChain_append.mpr
    ⟨hf.apart, List.isChain_singleton c, fun a ha _ _ => .inl (hf.last a ha)⟩

/-- Any character may stand between texts. -/
theorem Isolated.around (hf : Isolated front) (nf : front ≠ []) (hb : Isolated back)
    (nb : back ≠ []) (c : Char) : Isolated (front ++ [c] ++ back) where
  apart := List.isChain_append.mpr
    ⟨hf.isChain_concat c, hb.apart, fun _ _ b hb' => .inr (hb.head b hb')⟩
  head d hd := by
    rw [List.append_assoc, List.head?_append_of_ne_nil _ nf] at hd
    exact hf.head d hd
  last d hd := by
    rw [List.getLast?_append_of_ne_nil _ nb] at hd
    exact hb.last d hd

theorem mark_not_mem_blanks {x : Char} (hx : x ∈ marks) (gap : Blanks) : x ∉ gap.val := by
  intro hm
  have blank := gap.property x hm
  rw [isBlank_of_mark hx] at blank
  cases blank

theorem mark_not_mem_quote {x : Char} (hx : x ∈ marks) {q : Char} (hq : isQuote q = true) :
    x ∉ [q] := by
  intro hm
  rw [← List.mem_singleton.mp hm, isQuote_of_mark hx] at hq
  cases hq

theorem Isolated.blanks (gap : Blanks) : Isolated gap.val :=
  .of_free fun _ hc hm => mark_not_mem_blanks hm gap hc

theorem Isolated.quote {q : Char} (hq : isQuote q = true) : Isolated [q] :=
  .of_free fun _ hc hm => mark_not_mem_quote hm hq hc

theorem IsOperand.isolated {text : List Char} (h : IsOperand text) : Isolated text := by
  obtain ⟨q, c, hq, rfl⟩ | ⟨-, plain⟩ := h.quoted_or_plain
  · have alone := Isolated.quote hq
    exact alone.around (List.cons_ne_nil q []) alone (List.cons_ne_nil q []) c
  · exact .of_free fun c hc => (plain c hc).2

/-- Between isolated texts, no marks stand side by side but those of the sign. -/
theorem isChain_sign (hf : Isolated front) (hb : Isolated back) (d : Comparison) :
    (front ++ d.sign.toList ++ back).IsChain fun a b =>
      a ∉ marks ∨ b ∉ marks ∨ [a, b] = d.sign.toList := by
  have own : d.sign.toList.IsChain fun a b =>
      a ∉ marks ∨ b ∉ marks ∨ [a, b] = d.sign.toList := by
    cases d <;> first | exact List.isChain_singleton _ | exact List.isChain_pair.mpr (by decide)
  have apart {cs : List Char} (h : cs.IsChain fun a b => a ∉ marks ∨ b ∉ marks) :
      cs.IsChain fun a b => a ∉ marks ∨ b ∉ marks ∨ [a, b] = d.sign.toList :=
    h.imp fun _ _ => Or.imp_right .inl
  have start : (front ++ d.sign.toList).IsChain fun a b =>
      a ∉ marks ∨ b ∉ marks ∨ [a, b] = d.sign.toList :=
    List.isChain_append.mpr ⟨apart hf.apart, own, fun a ha _ _ => .inl (hf.last a ha)⟩
  exact List.isChain_append.mpr
    ⟨start, apart hb.apart, fun _ _ b hb' => .inr (.inl (hb.head b hb'))⟩

/-! ## reading a condition -/

/-- A sign of two marks. -/
def IsWide (d : Comparison) : Prop := d.sign.toList.length = 2

instance : DecidablePred IsWide := fun _ => inferInstanceAs (Decidable (_ = _))

theorem IsWide.exists_marks {d : Comparison} (h : IsWide d) :
    ∃ x ∈ marks, ∃ y ∈ marks, d.sign.toList = [x, y] := by
  cases d with
  | eq => exact ⟨'=', by decide, '=', by decide, rfl⟩
  | ne => exact ⟨'!', by decide, '=', by decide, rfl⟩
  | ge => exact ⟨'>', by decide, '=', by decide, rfl⟩
  | le => exact ⟨'<', by decide, '=', by decide, rfl⟩
  | gt | lt => exact absurd h (by decide)

theorem isWide_or_narrow (d : Comparison) : IsWide d ∨ d = .gt ∨ d = .lt := by
  cases d <;> decide

/-- What is searched for before a sign is another sign of two marks, or `>` before `<`. -/
theorem exists_order (d : Comparison) : ∃ earlier later, Comparison.all = earlier ++ d :: later ∧
    ∀ e ∈ earlier, e ≠ d ∧ (IsWide e ∨ e = .gt ∧ d = .lt) :=
  ⟨Comparison.all.takeWhile (· ≠ d), (Comparison.all.dropWhile (· ≠ d)).tail,
    by cases d <;> rfl, by cases d <;> decide⟩

/-- A sign does not start earlier than where it stands out. -/
theorem not_part_of_front {d : Comparison} (hf : Isolated front) (stands : d.StandsOut front back) :
    ¬ d.sign.toList <:+: front ++ d.sign.toList.dropLast := by
  intro inside
  obtain wide | rfl | rfl := isWide_or_narrow d
  · obtain ⟨x, hx, y, hy, sign⟩ := wide.exists_marks
    rw [sign] at inside
    obtain no | no := rel_of_isChain (hf.isChain_concat x) inside
    · exact no hx
    · exact no hy
  · have mem : '>' ∈ front ++ [] := (List.singleton_infix_iff _ _).mp inside
    exact stands (List.append_nil front ▸ mem)
  · have mem : '<' ∈ front ++ [] := (List.singleton_infix_iff _ _).mp inside
    exact stands.2.1 (List.append_nil front ▸ mem)

/-- A sign that is searched for earlier does not stand around one that stands out. -/
theorem not_part_of_earlier {d e : Comparison} (hf : Isolated front) (hb : Isolated back)
    (stands : d.StandsOut front back) (other : e ≠ d)
    (early : IsWide e ∨ e = .gt ∧ d = .lt) :
    ¬ e.sign.toList <:+: front ++ d.sign.toList ++ back := by
  intro inside
  obtain wide | ⟨rfl, rfl⟩ := early
  · obtain ⟨x, hx, y, hy, sign⟩ := wide.exists_marks
    rw [sign] at inside
    obtain no | no | same := rel_of_isChain (isChain_sign hf hb d) inside
    · exact no hx
    · exact no hy
    · exact other (Comparison.sign_injective (sign.trans same))
  · have mem : '>' ∈ front ++ ['<'] ++ back := (List.singleton_infix_iff _ _).mp inside
    simp only [List.mem_append, List.mem_singleton] at mem
    obtain (hm | hm) | hm := mem
    · exact stands.1 hm
    · exact absurd hm (by decide)
    · exact stands.2.2 hm

/-- A text is read as the condition whose sign stands out in it. -/
theorem parse_of_standsOut {text : String} {d : Comparison}
    (ht : text.toList = front ++ d.sign.toList ++ back) (trimmed : trim text.toList = text.toList)
    (hf : Isolated front) (hb : Isolated back) (stands : d.StandsOut front back)
    (nf : trim front ≠ []) (nb : trim back ≠ []) :
    parse text = .ok ⟨String.ofList (trim front), d, String.ofList (trim back)⟩ := by
  have some : d.sign.toList ≠ [] := by cases d <;> decide
  have found : with? text.toList d =
      .some ⟨String.ofList (trim front), d, String.ofList (trim back)⟩ := by
    rw [with?, ht, splitAround?_append some (not_part_of_front hf stands)]
    exact if_pos ⟨nf, nb⟩
  obtain ⟨earlier, later, order, early⟩ := exists_order d
  have missed : ∀ e ∈ earlier, with? text.toList e = none := by
    intro e he
    obtain ⟨other, signs⟩ := early e he
    rw [with?, ht, splitAround?_of_no_part (not_part_of_earlier hf hb stands other signs)]
  have search : Comparison.all.findSome? (with? (trim text.toList)) =
      .some ⟨String.ofList (trim front), d, String.ofList (trim back)⟩ := by
    rw [trimmed, List.findSome?_eq_some_iff]
    exact ⟨earlier, d, later, order, found, missed⟩
  rw [parse, search]

/-! ## conditions that are written out -/

variable {c : BreakCondition} {before after : Blanks}

theorem toList_spelled (c : BreakCondition) (before after : Blanks) :
    (c.spelled before after).toList = c.left.toList ++ before.val ++
      c.comparison.sign.toList ++ (after.val ++ c.right.toList) :=
  String.toList_ofList

theorem trim_spelled (left : IsOperand c.left.toList) (right : IsOperand c.right.toList) :
    trim (c.spelled before after).toList = (c.spelled before after).toList := by
  have between := trim_between left.trim_eq left.ne_nil right.trim_eq right.ne_nil
    (before.val ++ c.comparison.sign.toList ++ after.val)
  simpa only [toList_spelled, List.append_assoc] using between

/-- White space does not hide a sign. -/
theorem standsOut_spaced {d : Comparison} (h : d.StandsOut front back) (before after : Blanks) :
    d.StandsOut (front ++ before.val) (after.val ++ back) := by
  have less (gap : Blanks) : '<' ∉ gap.val := mark_not_mem_blanks (by decide) gap
  have greater (gap : Blanks) : '>' ∉ gap.val := mark_not_mem_blanks (by decide) gap
  cases d with
  | eq | ne | ge | le => trivial
  | gt => exact List.not_mem_append h (greater before)
  | lt =>
      exact ⟨List.not_mem_append h.1 (greater before), List.not_mem_append h.2.1 (less before),
        List.not_mem_append (greater after) h.2.2⟩

/-- A condition whose sign is found where it stands is read back. -/
theorem parse_of_readable (left : IsOperand c.left.toList) (right : IsOperand c.right.toList)
    (readable : c.Readable) : parse (c.spelled before after) = .ok c := by
  have front : trim (c.left.toList ++ before.val) = c.left.toList :=
    (trim_append_trail before.property c.left.toList).trans left.trim_eq
  have back : trim (after.val ++ c.right.toList) = c.right.toList :=
    (trim_append after.property c.right.toList).trans right.trim_eq
  have read := parse_of_standsOut (toList_spelled c before after) (trim_spelled left right)
    (left.isolated.append (.blanks before)) ((Isolated.blanks after).append right.isolated)
    (standsOut_spaced readable before after) (by rw [front]; exact left.ne_nil)
    (by rw [back]; exact right.ne_nil)
  rw [read, front, back, String.ofList_toList, String.ofList_toList]

/-! ## marks within operands -/

theorem trim_quote {q : Char} (hq : isQuote q = true) : trim [q] = [q] :=
  trim_of_plain (List.forall_mem_singleton.mpr (Expr.isBlank_of_isQuote hq))

theorem trim_ne_nil_of_quote {q : Char} (hq : isQuote q = true) {cs : List Char} (hm : q ∈ cs) :
    trim cs ≠ [] :=
  List.ne_nil_of_mem (mem_trim hm (Expr.isBlank_of_isQuote hq))

/-- A text is read as a condition with a lone quotation mark for an operand, and not as the given
one. -/
def Misread (c : BreakCondition) (text : String) : Prop :=
  ∃ other q, parse text = .ok other ∧ isQuote q = true ∧ other ≠ c ∧
    (other.left = String.ofList [q] ∨ other.right = String.ofList [q])

theorem ne_of_quoted {s : String} {q x : Char} (h : s.toList = [q, x, q]) :
    String.ofList [q] ≠ s := by
  rintro rfl
  rw [String.toList_ofList] at h
  cases h

/-- A mark that is quoted in front of the sign is taken for it. -/
theorem misread_left {d : Comparison} {x y : Char} (left : IsOperand c.left.toList)
    (right : IsOperand c.right.toList) (hx : x ∈ marks) (hm : x ∈ c.left.toList)
    (own : c.comparison.sign.toList = [y]) (mark : d.sign.toList = [x])
    (stands : ∀ q, isQuote q = true → d.StandsOut [q]
      ([q] ++ before.val ++ [y] ++ (after.val ++ c.right.toList))) :
    c.Misread (c.spelled before after) := by
  obtain ⟨q, hq, quoted⟩ := left.exists_of_mark hx hm
  have chars : (c.spelled before after).toList = [q] ++ d.sign.toList ++
      ([q] ++ before.val ++ [y] ++ (after.val ++ c.right.toList)) := by
    rw [toList_spelled, quoted, own, mark]
    simp only [List.cons_append, List.nil_append]
  have back : Isolated ([q] ++ before.val ++ [y] ++ (after.val ++ c.right.toList)) :=
    ((Isolated.quote hq).append (.blanks before)).around (by simp)
      ((Isolated.blanks after).append right.isolated) (by simp [right.ne_nil]) y
  have read := parse_of_standsOut chars (trim_spelled left right) (.quote hq) back (stands q hq)
    (trim_ne_nil_of_quote hq List.mem_cons_self) (trim_ne_nil_of_quote hq (by simp))
  have lone := congrArg String.ofList (trim_quote hq)
  exact ⟨_, q, read, hq,
    fun same => ne_of_quoted quoted (lone ▸ congrArg BreakCondition.left same), .inl lone⟩

/-- The mark `>` that is quoted behind the sign `<` is taken for the sign. -/
theorem misread_right (left : IsOperand c.left.toList) (right : IsOperand c.right.toList)
    (own : c.comparison.sign.toList = ['<']) (free : '>' ∉ c.left.toList)
    (hm : '>' ∈ c.right.toList) : c.Misread (c.spelled before after) := by
  obtain ⟨q, hq, quoted⟩ := right.exists_of_mark (by decide) hm
  have chars : (c.spelled before after).toList =
      c.left.toList ++ before.val ++ ['<'] ++ (after.val ++ [q]) ++ Comparison.gt.sign.toList ++
        [q] := by
    have sign : Comparison.gt.sign.toList = ['>'] := rfl
    rw [toList_spelled, own, quoted, sign]
    simp only [List.append_assoc, List.cons_append, List.nil_append]
  have front : Isolated (c.left.toList ++ before.val ++ ['<'] ++ (after.val ++ [q])) :=
    (left.isolated.append (.blanks before)).around (by simp [left.ne_nil])
      ((Isolated.blanks after).append (.quote hq)) (by simp) '<'
  have stands : Comparison.gt.StandsOut
      (c.left.toList ++ before.val ++ ['<'] ++ (after.val ++ [q])) [q] := by
    have greater (gap : Blanks) : '>' ∉ gap.val := mark_not_mem_blanks (by decide) gap
    exact List.not_mem_append
      (List.not_mem_append (List.not_mem_append free (greater before)) (by decide))
      (List.not_mem_append (greater after) (mark_not_mem_quote (by decide) hq))
  have read := parse_of_standsOut chars (trim_spelled left right) front (.quote hq) stands
    (trim_ne_nil_of_quote hq (by simp)) (trim_ne_nil_of_quote hq List.mem_cons_self)
  have lone := congrArg String.ofList (trim_quote hq)
  exact ⟨_, q, read, hq,
    fun same => ne_of_quoted quoted (lone ▸ congrArg BreakCondition.right same), .inr lone⟩

/-- A condition whose sign does not stand out is misread. -/
theorem misread_of_not_readable (left : IsOperand c.left.toList)
    (right : IsOperand c.right.toList) (h : ¬ c.Readable) (before after : Blanks) :
    c.Misread (c.spelled before after) := by
  have greater {q : Char} (hq : isQuote q = true) : '>' ∉ [q] :=
    mark_not_mem_quote (by decide) hq
  cases hc : c.comparison with
  | eq | ne | ge | le =>
      rw [Readable, hc] at h
      exact absurd trivial h
  | gt =>
      rw [Readable, hc] at h
      exact misread_left (d := .gt) left right (by decide) (not_not.mp h)
        (congrArg (·.sign.toList) hc) rfl fun q hq => greater hq
  | lt =>
      have own : c.comparison.sign.toList = ['<'] := congrArg (·.sign.toList) hc
      -- a `>` on either side is found first, as it is searched for first
      by_cases hl : '>' ∈ c.left.toList
      · exact misread_left (d := .gt) left right (by decide) hl own rfl fun q hq => greater hq
      by_cases hr : '>' ∈ c.right.toList
      · exact misread_right left right own hl hr
      · rw [Readable, hc] at h
        have less : '<' ∈ c.left.toList := by
          by_contra none
          exact h ⟨hl, none, hr⟩
        have blanks (gap : Blanks) : '>' ∉ gap.val := mark_not_mem_blanks (by decide) gap
        refine misread_left (d := .lt) left right (by decide) less own rfl fun q hq => ?_
        refine ⟨greater hq, mark_not_mem_quote (by decide) hq, ?_⟩
        exact List.not_mem_append
          (List.not_mem_append (List.not_mem_append (greater hq) (blanks before)) (by decide))
          (List.not_mem_append (blanks after) hr)

/-- A condition with a lone quotation mark for an operand never holds. -/
theorem holds_of_lone_quote {m : Machine} {symbols : Symbols} (names : NamesLabels symbols)
    {q : Char} (hq : isQuote q = true)
    (lone : c.left = String.ofList [q] ∨ c.right = String.ofList [q]) :
    c.holds m symbols = false := by
  have none : operandValue? m symbols (String.ofList [q]) = none := operandValue?_quote names hq
  unfold holds
  obtain left | right := lone
  · rw [left, none]
  · rw [right, none]
    cases operandValue? m symbols c.left <;> rfl

/-! ## main result -/

/-- A condition that is written out is read back exactly if its sign stands out, whatever white
space is around the sign; and what is read instead never holds. -/
theorem parse_spelled (left : IsOperand c.left.toList) (right : IsOperand c.right.toList)
    (before after : Blanks) :
    (parse (c.spelled before after) = .ok c ↔ c.Readable) ∧
      (parse c.text = .ok c ↔ c.Readable) ∧
      (¬ c.Readable → ∃ other, parse (c.spelled before after) = .ok other ∧
        ∀ (m : Machine) (symbols : Symbols), NamesLabels symbols →
          other.holds m symbols = false) := by
  have back (before after : Blanks) :
      parse (c.spelled before after) = .ok c ↔ c.Readable := by
    refine ⟨fun read => ?_, parse_of_readable left right⟩
    by_contra no
    obtain ⟨other, q, instead, -, ne, -⟩ := misread_of_not_readable left right no before after
    rw [read, Except.ok.injEq] at instead
    exact ne instead.symm
  refine ⟨back before after, c.text_eq_spelled ▸ back .space .space, fun no => ?_⟩
  obtain ⟨other, q, read, hq, -, lone⟩ := misread_of_not_readable left right no before after
  exact ⟨other, read, fun m symbols names => holds_of_lone_quote names hq lone⟩

/-- A shadow register and a quoted mark on either side of a sign, with no white space around it. -/
theorem parse_spelled_close : parse "A_PRIME>='='" = .ok ⟨"A_PRIME", .ge, "'='"⟩ := by
  have left : IsOperand "A_PRIME".toList := .register (.shadowByte .a) (by decide +kernel)
  have right : IsOperand "'='".toList := .literal (by decide +kernel) (by decide +kernel)
  have readable : Readable ⟨"A_PRIME", .ge, "'='"⟩ := by decide
  have back := parse_spelled (c := ⟨"A_PRIME", .ge, "'='"⟩) left right .none .none
  exact back.1.mpr readable

/-- A quoted mark that is taken for the sign. -/
theorem parse_text_misread : IsOperand "A".toList ∧ IsOperand "'>'".toList ∧
    text ⟨"A", .lt, "'>'"⟩ = "A < '>'" ∧ parse "A < '>'" = .ok ⟨"A < '", .gt, "'"⟩ :=
  ⟨.register (.byte .a) (by decide +kernel), .literal (by decide +kernel) (by decide +kernel),
    by decide +kernel, by decide +kernel⟩

end BreakCondition

end Z80Workbench
