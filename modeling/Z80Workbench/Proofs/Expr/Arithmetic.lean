import Z80Workbench.Proofs.Expr.Formula
import Z80Workbench.Proofs.Firmware

/-!
# Z80Workbench.Proofs.Expr.Arithmetic

Formulas without character literals are always read as the arithmetic they are.  Where an operand is
missing, or a sign follows an operator, there is no value, whatever stands behind it.
-/

namespace Z80Workbench.Formula

open Text
open Z80Workbench.Expr (Atom Term Piece KnowsIdentifiers operators scan)

variable {scope : Expr.Scope} {e : Formula}

/-! ## formulas without quotation marks -/

/-- The formula holds no character literal. -/
def Plain (e : Formula) : Prop := ∀ t ∈ e.tokens, t.character? = none

theorem Plain.character? (h : e.Plain) {p : Product} (hp : p ∈ e.products) :
    ∀ f ∈ p.factors, f.token.character? = none :=
  fun _ hf => h _ (mem_tokens hp hf)

theorem Plain.holdsMark (h : e.Plain) : ∀ t ∈ e.tokens, t.holdsMark = false :=
  fun t ht => Token.holdsMark_of_plain (h t ht)

theorem Plain.readable (h : e.Plain) : e.Readable := by
  refine (readable_iff_placed h.holdsMark).mpr fun p hp => ⟨fun _ => ?_, fun f hf => ?_⟩
  · exact h.character? hp p.first List.mem_cons_self
  · rw [h.character? hp f (List.mem_cons_of_mem _ hf)]
    exact nofun

/-! ## missing operands -/

/-- The text holds nothing, or starts with an operator. -/
def LacksOperand (text : List Char) : Prop :=
  text = [] ∨ ∃ c rest, c ∈ ['+', '-', '*'] ∧ text = c :: rest

/-- The piece that goes on there holds nothing but blanks up to its end or a star. -/
theorem exists_pieces_gap (gap : Blanks) {tail : List Char} (h : LacksOperand tail) :
    ∃ back more, (back = [] ∨ ∃ cs, back = '*' :: cs) ∧
      ∀ negative, Expr.pieces none negative (gap.val ++ tail) =
        ⟨negative, gap.val ++ back⟩ :: more := by
  obtain rfl | ⟨c, rest, hc, rfl⟩ := h
  · refine ⟨[], [], .inl rfl, fun negative => ?_⟩
    rw [List.append_nil]
    exact Expr.pieces_of_end (gap.scan Expr.quoted_none) negative
  · simp only [List.mem_cons, List.not_mem_nil, or_false, ← or_assoc] at hc
    obtain sign | rfl := hc
    · refine ⟨[], Expr.pieces none (c = '-') rest, .inl rfl, fun negative => ?_⟩
      rw [List.append_nil]
      exact Expr.pieces_of_sign (gap.scan Expr.quoted_none) sign negative rest
    · obtain ⟨first, more, split⟩ := Expr.exists_pieces_of_star (gap.scan Expr.quoted_none) rest
      exact ⟨'*' :: first, more, .inr ⟨first, rfl⟩, split⟩

theorem mem_splitAt_gap (gap : Blanks) {back : List Char} (h : back = [] ∨ ∃ cs, back = '*' :: cs) :
    gap.val ∈ splitAt '*' (gap.val ++ back) := by
  have star : '*' ∉ gap.val := Expr.star_not_mem_of_blank gap.property
  obtain rfl | ⟨cs, rfl⟩ := h
  · rw [List.append_nil, Expr.splitAt_of_not_mem star]
    exact List.mem_singleton_self _
  · rw [Expr.splitAt_separator, Expr.splitAt_of_not_mem star]
    exact List.mem_cons_self

/-- A piece that starts with a star holds no operand in front of it. -/
theorem stuck_of_leading_star (gap : Blanks) (cs : List Char) :
    Expr.Stuck scope (gap.val ++ '*' :: cs) := by
  have plain : ¬Expr.StartsQuoted (gap.val ++ '*' :: cs) := by
    rw [Expr.startsQuoted_iff gap.property (by decide)]
    decide
  exact Expr.stuck_of_part plain (by simp) (mem_splitAt_gap gap (.inr ⟨cs, rfl⟩))
    (Atom.value?_of_blank gap.property)

/-- A product with nothing behind a star. -/
theorem Product.stuck_of_gap {p : Product} (h : p.first.token.character? = none) (gap : Blanks)
    {back : List Char} (hb : back = [] ∨ ∃ cs, back = '*' :: cs) :
    Expr.Stuck scope (p.text ++ '*' :: (gap.val ++ back)) := by
  have plain : ¬Expr.StartsQuoted (p.text ++ '*' :: (gap.val ++ back)) := by
    rw [text, List.append_assoc, Factor.startsQuoted_iff, h]
    decide
  refine Expr.stuck_of_part plain (by simp) ?_ (Atom.value?_of_blank gap.property)
  rw [Expr.splitAt_separator]
  exact List.mem_append_right _ (mem_splitAt_gap gap hb)

/-- What stands behind a sum belongs to the piece of its last product. -/
theorem exists_pieces_sum {p : Product} {rest : List (Bool × Product)}
    (closed : ∀ q ∈ p :: rest.map Prod.snd, scan none q.text = some none) (negative : Bool) :
    ∃ front n last, last ∈ p :: rest.map Prod.snd ∧ ∀ back,
      Expr.pieces none negative (sumText p rest ++ back) =
        front ++ Expr.pieces none n (last.text ++ back) := by
  induction rest generalizing p negative with
  | nil => exact ⟨[], negative, p, List.mem_cons_self, fun back => by simp [sumText]⟩
  | cons t rest ih =>
      have sign := signChar_eq t.1
      obtain ⟨front, n, last, mem, split⟩ :=
        ih (fun q hq => closed q (List.mem_cons_of_mem p hq)) t.1
      refine ⟨⟨negative, p.text⟩ :: front, n, last, List.mem_cons_of_mem p mem, fun back => ?_⟩
      have shape : sumText p (t :: rest) ++ back =
          p.text ++ signChar t.1 :: (sumText t.2 rest ++ back) := by
        simp [sumText]
      rw [shape, Expr.pieces_of_sign (closed p List.mem_cons_self) sign.1, sign.2, split,
        List.cons_append]

/-- An operator without an operand behind it leaves a sum without a value. -/
theorem Plain.sum?_of_lacking (h : e.Plain) {op : Char} (hop : op ∈ ['+', '-', '*'])
    (gap : Blanks) {tail : List Char} (ht : LacksOperand tail) (sign : Bool) :
    (Expr.termsOf sign (Expr.pieces none false
      (sumText e.first e.rest ++ op :: (gap.val ++ tail)))).bind (Term.sum? scope) = none := by
  have closed : ∀ q ∈ e.products, scan none q.text = some none :=
    fun q hq => Product.scan_text fun f hf => h.holdsMark f.token (mem_tokens hq hf)
  obtain ⟨front, n, last, mem, split⟩ := exists_pieces_sum closed false
  obtain ⟨back, more, hb, missing⟩ := exists_pieces_gap gap ht
  rw [split]
  simp only [List.mem_cons, List.not_mem_nil, or_false, ← or_assoc] at hop
  obtain signed | rfl := hop
  · rw [Expr.pieces_of_sign (closed last mem) signed, missing]
    obtain rfl | ⟨cs, rfl⟩ := hb
    · -- a blank piece behind the last product
      have shape : front ++ ⟨n, last.text⟩ :: ⟨decide (op = '-'), gap.val ++ []⟩ :: more =
          (front ++ [⟨n, last.text⟩]) ++ ⟨decide (op = '-'), gap.val ++ []⟩ :: more := by
        simp
      have blank : trim (gap.val ++ []) = [] := by
        rw [List.append_nil]
        exact trim_eq_nil_iff.mpr gap.property
      rw [shape, Expr.termsOf_of_missing (p := ⟨n, last.text⟩) (by simp) last.trim_text_ne_nil
        blank]
      rfl
    · refine Expr.sum?_of_stuck (p := ⟨decide (op = '-'), gap.val ++ '*' :: cs⟩) (by simp) ?_ sign
      exact stuck_of_leading_star gap cs
  · have piece : Expr.pieces none n (last.text ++ '*' :: (gap.val ++ tail)) =
        ⟨n, last.text ++ '*' :: (gap.val ++ back)⟩ :: more := by
      rw [Expr.pieces_of_scan (closed last mem), Expr.pieces_star, missing, Piece.push,
        Expr.foldr_push]
    rw [piece]
    refine Expr.sum?_of_stuck (p := ⟨n, last.text ++ '*' :: (gap.val ++ back)⟩) (by simp) ?_ sign
    exact Product.stuck_of_gap (h.character? mem last.first List.mem_cons_self) gap hb

theorem Plain.value?_of_lacking (known : KnowsIdentifiers scope.value?) (h : e.Plain) {op : Char}
    (hop : op ∈ ['+', '-', '*']) (gap : Blanks) {tail : List Char} (ht : LacksOperand tail) :
    (Expr.read (e.text ++ op :: (gap.val ++ tail))).value? scope = none := by
  have operator : op ∈ operators := by
    simp only [List.mem_cons, List.not_mem_nil, or_false] at hop
    rcases hop with rfl | rfl | rfl <;> decide
  have composite : Composite (e.text ++ op :: (gap.val ++ tail)) := by
    cases signs : e.signs with
    | cons s rest => exact .sign s _ (by rw [text, signs, List.flatMap_cons]; simp; rfl)
    | nil =>
        rw [text_of_unsigned signs, List.append_assoc]
        exact .factor e.first.first _ rfl op operator (by simp)
  rw [Expr.value?_of_whole (composite.value?_eq_none known), text, List.append_assoc, termsOf_signs,
    h.sum?_of_lacking hop gap ht]
  rfl

/-- Nothing behind leading signs, or a star with nothing in front of it. -/
theorem value?_of_leading (known : KnowsIdentifiers scope.value?) (signs : List Sign) (gap : Blanks)
    {tail : List Char} (ht : tail = [] ∨ ∃ rest, tail = '*' :: rest) :
    (Expr.read (signs.flatMap Sign.text ++ (gap.val ++ tail))).value? scope = none := by
  have whole : (Atom.read (signs.flatMap Sign.text ++ (gap.val ++ tail))).value? scope = none := by
    cases signs with
    | cons s rest =>
        have start : (s :: rest).flatMap Sign.text ++ (gap.val ++ tail) =
            s.text ++ (rest.flatMap Sign.text ++ (gap.val ++ tail)) := by
          rw [List.flatMap_cons, List.append_assoc]
        exact Composite.value?_eq_none known (.sign s _ start)
    | nil =>
        rw [List.flatMap_nil, List.nil_append]
        obtain rfl | ⟨rest, rfl⟩ := ht
        · rw [List.append_nil]
          exact Atom.value?_of_blank gap.property
        · refine Atom.value?_of_operator known (c := '*') (by decide) (by simp) fun character => ?_
          have quote := (Expr.exists_of_isCharacter gap.property (by decide) character).1
          exact absurd quote (by decide)
  rw [Expr.value?_of_whole whole, termsOf_signs]
  obtain rfl | ⟨rest, rfl⟩ := ht
  · have blank : trim gap.val = [] := trim_eq_nil_iff.mpr gap.property
    rw [List.append_nil, Expr.pieces_of_end (gap.scan Expr.quoted_none), Expr.termsOf,
      if_pos blank]
    rfl
  · obtain ⟨first, more, split⟩ := Expr.exists_pieces_of_star (gap.scan Expr.quoted_none) rest
    rw [split, Expr.sum?_of_stuck List.mem_cons_self (stuck_of_leading_star gap first)]
    rfl

/-! ## all formulas without quotation marks -/

/-- A symbol table with one name, and the firmware's names behind it. -/
def screenScope : Expr.Scope := ⟨⟨[("SCREEN", 0x1800)]⟩, Firmware.address?⟩

theorem knowsIdentifiers_screenScope : KnowsIdentifiers screenScope.value? := by
  intro text name value read hv
  rw [Expr.Scope.value?, Option.or_eq_some_iff] at hv
  obtain table | ⟨-, firmware⟩ := hv
  · simp only [screenScope, Table.get?, Table.lookup] at table
    split at table
    case isTrue named =>
        rw [← named]
        decide
    case isFalse => cases table
  · simp only [screenScope] at firmware
    exact Firmware.knowsIdentifiers read firmware

/-- The formula `- screen+32 * 3-CHPUT`. -/
def screenFormula : Formula where
  signs := [⟨.none, true⟩]
  first := ⟨⟨.space, .name "screen".toList (by decide) (by simp)
    (Expr.not_denotes (by decide +kernel)), .none⟩, []⟩
  rest := [
    (false,
      ⟨⟨.none, .numeral "32".toList 32 (.decimal ⟨[3, 2], by decide, by decide, by decide, rfl⟩)
        (by simp [Expr.isQuote]), .space⟩,
      [⟨.space, .numeral "3".toList 3 (.decimal ⟨[3], by decide, by decide, by decide, rfl⟩)
        (by simp [Expr.isQuote]), .none⟩]⟩),
    (true, ⟨⟨.none, .name "CHPUT".toList (by decide) (by simp)
      (Expr.not_denotes (by decide +kernel)), .none⟩, []⟩)]

end Z80Workbench.Formula
