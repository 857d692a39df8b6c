import Z80Workbench.Proofs.Expr.Growth
import Z80Workbench.Proofs.Expr.Literal

/-!
# Z80Workbench.Proofs.Expr.Pieces

How the text of an expression is taken apart: at its signs into terms, and each term at its stars
into factors.  A quotation mark hides signs, and stars only if the term starts with it.  A part that
is left with an operator in it has no value, whatever identifiers are known.
-/

namespace Z80Workbench

open Text

namespace Expr

/-! ## texts without a value -/

/-- What a numeral in capital letters is made of. -/
theorem digit_or_mark_of_mem {cs : List Char} {n : Nat} (h : numeral? cs = some n) {c : Char}
    (hc : c ∈ cs) : (digitValue? c).isSome ∨ c ∈ ['X', 'H', 'B', '&', '#', '$', '%'] := by
  have digit {base m : Nat} {ds : List Char} (hd : digits? base ds = some m) (hm : c ∈ ds) :
      (digitValue? c).isSome := by
    obtain ⟨d, -, value⟩ := digitValue?_of_mem hd hm
    rw [value, Option.isSome_some]
  unfold numeral? at h
  split at h
  case h_1 => cases h
  case h_2 | h_3 =>
      rcases List.mem_cons.mp hc with rfl | hc
      · decide
      rcases List.mem_cons.mp hc with rfl | hc
      · decide
      exact .inl (digit h hc)
  case h_4 | h_5 | h_6 =>
      rcases List.mem_cons.mp hc with rfl | hc
      · decide
      exact .inl (digit h hc)
  case h_7 =>
      split at h
      case isFalse => cases h
      case isTrue =>
          obtain ⟨front, he, hd⟩ | ⟨back, he, hd⟩ | ⟨front, he, hd⟩ | hd :=
            exists_of_digitInitial? h
          · rw [he, List.mem_append, List.mem_singleton] at hc
            rcases hc with hc | rfl
            · exact .inl (digit hd hc)
            · decide
          · rw [he] at hc
            rcases List.mem_cons.mp hc with rfl | hc
            · decide
            rcases List.mem_cons.mp hc with rfl | hc
            · decide
            exact .inl (digit hd hc)
          · rw [he, List.mem_append, List.mem_singleton] at hc
            rcases hc with hc | rfl
            · exact .inl (digit hd hc)
            · decide
          · exact .inl (digit hd hc)

/-- The characters that take an expression apart. -/
def operators : List Char := ['+', '-', '*', '\'', '"']

theorem mem_operators_of_isMark {c : Char} (h : isMark c = true) : c ∈ operators := by
  simp only [isMark, isQuote, Bool.or_eq_true, decide_eq_true_eq] at h
  rcases h with ((rfl | rfl) | rfl) | rfl <;> decide

theorem isBlank_of_operator {c : Char} (hc : c ∈ operators) : isBlank c = false :=
  (operator_plain c hc).1

theorem isMark_of_isBlank {c : Char} (h : isBlank c = true) : isMark c = false := by
  rw [← Bool.not_eq_true]
  intro mark
  rw [isBlank_of_operator (mem_operators_of_isMark mark)] at h
  contradiction

/-- No numeral holds one of them. -/
theorem not_mem_of_numeral? {text : List Char} {n : Nat} (h : numeral? (upper text) = some n)
    {c : Char} (hc : c ∈ operators) : c ∉ text := by
  intro hm
  have mem : c ∈ upper text := mem_upper hm (operator_plain c hc).2.1
  have row : operators.all (fun c => !(digitValue? c).isSome &&
      !(['X', 'H', 'B', '&', '#', '$', '%'].contains c)) = true := by decide
  have other := List.all_eq_true.mp row c hc
  rw [Bool.and_eq_true, Bool.not_eq_true', Bool.not_eq_true'] at other
  obtain digit | mark := digit_or_mark_of_mem h mem
  · rw [other.1] at digit
    contradiction
  · rw [List.contains_iff_mem.mpr mark] at other
    exact absurd other.2 (by decide)

/-- The text is a character between two equal quotation marks, and blanks around them. -/
def IsCharacter (text : List Char) : Prop := ∃ q c, isQuote q = true ∧ trim text = [q, c, q]

/-- Behind the closing mark of a character, there are only blanks. -/
theorem exists_of_isCharacter {lead rest : List Char} {q : Char}
    (hl : ∀ c ∈ lead, isBlank c = true) (hq : isBlank q = false)
    (h : IsCharacter (lead ++ q :: rest)) :
    isQuote q = true ∧ ∃ c trail, rest = c :: q :: trail ∧ ∀ b ∈ trail, isBlank b = true := by
  obtain ⟨q', c, quotes, ht⟩ := h
  rw [trim_append hl] at ht
  obtain ⟨blanks, trail, he, hb, behind⟩ := exists_around (q :: rest)
  rw [ht] at he
  cases blanks with
  | nil =>
      obtain ⟨rfl, rfl⟩ := List.cons_eq_cons.mp he
      exact ⟨quotes, c, trail, rfl, behind⟩
  | cons b blanks =>
      obtain ⟨rfl, -⟩ := List.cons_eq_cons.mp he
      have blank := hb q List.mem_cons_self
      rw [hq] at blank
      contradiction

variable {scope : Scope} {text : List Char}

/-- A text that is no literal or name with a value has the value of its sum. -/
theorem value?_of_whole (h : (Atom.read text).value? scope = none) : (read text).value? scope =
    ((termsOf false (pieces none false text)).bind (Term.sum? scope)).map word := by
  simp only [value?, read, h]

/-- A text with an operator in it has no value, unless it is a character. -/
theorem Atom.value?_of_operator (known : KnowsIdentifiers scope.value?) {c : Char}
    (hc : c ∈ operators) (hm : c ∈ text) (other : ¬IsCharacter text) :
    (Atom.read text).value? scope = none := by
  have noCharacter : character? (trim text) = none := by
    rw [Option.eq_none_iff_forall_ne_some]
    intro n hn
    exact other (exists_of_character hn)
  have noNumeral : numeral? (upper (trim text)) = none := by
    rw [Option.eq_none_iff_forall_ne_some]
    intro n hn
    exact not_mem_of_numeral? hn hc (mem_trim hm (isBlank_of_operator hc))
  have noLiteral : literal? text = none := by
    rw [literal?, noCharacter, noNumeral]
    rfl
  cases read : Atom.read text with
  | number n =>
      rw [Atom.read, noLiteral] at read
      dsimp only at read
      split at read <;> cases read
  | blank => rfl
  | name name =>
      rw [Atom.value?, Option.eq_none_iff_forall_ne_some]
      intro value hv
      have identifier := known read hv
      rw [Atom.toList_of_read read] at identifier
      exact not_mem_of_isIdentifier identifier hc hm

/-- Nothing has no value. -/
theorem Atom.value?_of_blank (h : ∀ c ∈ text, isBlank c = true) :
    (Atom.read text).value? scope = none := by
  have empty : trim text = [] := trim_eq_nil_iff.mpr h
  have read : Atom.read text = .blank := by
    rw [← Atom.read_trim, empty]
    decide
  rw [read]
  rfl

theorem Atom.read_congr {front back : List Char} (h : trim front = trim back) :
    Atom.read front = Atom.read back := by
  rw [← Atom.read_trim, h, Atom.read_trim]

/-- What is not read as a literal is none. -/
theorem not_denotes (h : literal? text = none) (n : Nat) : ¬Denotes text n := by
  intro denotes
  rw [literal?_of_denotes (denotes.trim_eq.symm ▸ denotes)] at h
  contradiction

/-! ## factors -/

theorem splitAt_of_not_mem {separator : Char} (h : separator ∉ text) :
    splitAt separator text = [text] := by
  have whole := splitAt_append h []
  rwa [List.append_nil, splitAt, foldr_pushFront, List.append_nil] at whole

/-- A separator ends a piece. -/
theorem splitAt_separator (separator : Char) (front back : List Char) :
    splitAt separator (front ++ separator :: back) =
      splitAt separator front ++ splitAt separator back := by
  induction front with
  | nil => simp [splitAt]
  | cons c front ih =>
      obtain ⟨piece, more, split⟩ := List.exists_cons_of_ne_nil (splitAt_ne_nil separator front)
      rw [List.cons_append, splitAt, splitAt, ih, split]
      split <;> rfl

/-- What has no separator in it goes to the last piece. -/
theorem exists_splitAt_concat {separator : Char} {trail : List Char} (h : separator ∉ trail)
    (text : List Char) : ∃ front last, splitAt separator text = front ++ [last] ∧
      splitAt separator (text ++ trail) = front ++ [last ++ trail] := by
  induction text with
  | nil => exact ⟨[], [], rfl, splitAt_of_not_mem h⟩
  | cons c rest ih =>
      obtain ⟨front, last, short, long⟩ := ih
      rw [List.cons_append, splitAt, splitAt, short, long]
      split
      · exact ⟨[] :: front, last, rfl, rfl⟩
      · cases front with
        | nil => exact ⟨[], c :: last, rfl, rfl⟩
        | cons piece front => exact ⟨(c :: piece) :: front, last, rfl, rfl⟩

theorem star_not_mem_of_blank {blanks : List Char} (h : ∀ c ∈ blanks, isBlank c = true) :
    '*' ∉ blanks := by
  intro hm
  exact absurd (h '*' hm) (by decide)

/-- Blanks around a product go to its first and its last factor, where they do not matter. -/
theorem read_splitAt_trim (text : List Char) :
    (splitAt '*' (trim text)).map Atom.read = (splitAt '*' text).map Atom.read := by
  obtain ⟨lead, trail, he, hl, ht⟩ := exists_around text
  have nothing : ∀ c ∈ ([] : List Char), isBlank c = true := fun _ h => absurd h List.not_mem_nil
  obtain ⟨front, last, short, long⟩ :=
    exists_splitAt_concat (star_not_mem_of_blank ht) (lead ++ trim text)
  obtain ⟨first, more, split⟩ :=
    List.exists_cons_of_ne_nil (splitAt_ne_nil '*' (trim text))
  have start : splitAt '*' (lead ++ trim text) = (lead ++ first) :: more := by
    rw [splitAt_append (star_not_mem_of_blank hl), split, foldr_pushFront]
  have firstSame : Atom.read (lead ++ first) = Atom.read first :=
    Atom.read_congr (trim_append hl first)
  have lastSame : Atom.read (last ++ trail) = Atom.read last :=
    Atom.read_congr (trim_around nothing ht last)
  calc (splitAt '*' (trim text)).map Atom.read
    _ = (splitAt '*' (lead ++ trim text)).map Atom.read := by
        rw [split, start, List.map_cons, List.map_cons, firstSame]
    _ = (splitAt '*' (lead ++ trim text ++ trail)).map Atom.read := by
        rw [short, long, List.map_append, List.map_append, List.map_singleton,
          List.map_singleton, lastSame]
    _ = (splitAt '*' text).map Atom.read := by rw [← he]

/-- The text starts with a quotation mark behind its blanks. -/
def StartsQuoted (text : List Char) : Prop := (trim text).head?.any isQuote = true

theorem startsQuoted_iff {lead rest : List Char} {c : Char} (hl : ∀ b ∈ lead, isBlank b = true)
    (hc : isBlank c = false) : StartsQuoted (lead ++ c :: rest) ↔ isQuote c = true := by
  obtain ⟨more, start⟩ := exists_trim_cons hc rest
  rw [StartsQuoted, trim_append hl, start, List.head?_cons, Option.any_some]

/-- A product is read factor by factor. -/
theorem factors_of_star (star : '*' ∈ text) (plain : ¬StartsQuoted text) :
    factors (trim text) = (splitAt '*' text).map Atom.read := by
  have mem : '*' ∈ trim text := mem_trim star (by decide)
  rw [StartsQuoted, Bool.not_eq_true] at plain
  rw [factors, List.contains_iff_mem.mpr mem, plain]
  exact (if_pos rfl).trans (read_splitAt_trim text)

/-- A text that starts with a quotation mark, or holds no star, is one factor. -/
theorem factors_of_single (h : '*' ∉ text ∨ StartsQuoted text) :
    factors (trim text) = [Atom.read text] := by
  rw [factors, if_neg, Atom.read_trim]
  rw [Bool.and_eq_true, Bool.not_eq_true', not_and, Bool.not_eq_false]
  intro contains
  obtain absent | quoted := h
  · exact absurd (mem_of_mem_trim (List.contains_iff_mem.mp contains)) absent
  · exact quoted

/-! ## terms -/

theorem Term.product?_of_mem {a : Atom} {as : List Atom} (hm : a ∈ as)
    (h : a.value? scope = none) : Term.product? scope as = none := by
  induction as with
  | nil => exact absurd hm List.not_mem_nil
  | cons b rest ih =>
      rw [Term.product?]
      rcases List.mem_cons.mp hm with rfl | hm
      · rw [h]
        rfl
      · rw [ih hm]
        cases b.value? scope <;> rfl

theorem Term.sum?_of_mem {t : Term} {ts : List Term} (hm : t ∈ ts)
    (h : t.value? scope = none) : Term.sum? scope ts = none := by
  induction ts with
  | nil => exact absurd hm List.not_mem_nil
  | cons u rest ih =>
      rw [Term.sum?]
      rcases List.mem_cons.mp hm with rfl | hm
      · rw [h]
        rfl
      · rw [ih hm]
        cases u.value? scope <;> rfl

/-- A term that is there has a factor without a value. -/
def Stuck (scope : Scope) (text : List Char) : Prop :=
  trim text ≠ [] ∧ ∃ a ∈ factors (trim text), a.value? scope = none

/-- A part of a product has no value. -/
theorem stuck_of_part {part : List Char} (plain : ¬StartsQuoted text)
    (star : '*' ∈ text) (mem : part ∈ splitAt '*' text)
    (h : (Atom.read part).value? scope = none) : Stuck scope text := by
  refine ⟨fun empty => ?_, Atom.read part, ?_, h⟩
  · exact absurd (trim_eq_nil_iff.mp empty '*' star) (by decide)
  · rw [factors_of_star star plain]
    exact List.mem_map_of_mem mem

/-- A term that starts with a quotation mark is a character or has no value. -/
theorem stuck_of_quoted (known : KnowsIdentifiers scope.value?) (quoted : StartsQuoted text)
    (other : ¬IsCharacter text) : Stuck scope text := by
  cases ht : trim text with
  | nil => simp [StartsQuoted, ht] at quoted
  | cons q rest =>
      have hq : isQuote q = true := by simpa [StartsQuoted, ht] using quoted
      have operator : q ∈ operators := mem_operators_of_isMark (by rw [isMark, hq]; rfl)
      have mem : q ∈ text := mem_of_mem_trim (ht ▸ List.mem_cons_self)
      have one : factors (trim text) = [Atom.read text] := factors_of_single (.inr quoted)
      refine ⟨by rw [ht]; exact List.cons_ne_nil _ _, Atom.read text, ?_,
        Atom.value?_of_operator known operator mem other⟩
      rw [one]
      exact List.mem_singleton_self _

/-- A sum with such a term has no value. -/
theorem sum?_of_stuck {ps : List Piece} {p : Piece} (hm : p ∈ ps) (h : Stuck scope p.text)
    (negative : Bool) : (termsOf negative ps).bind (Term.sum? scope) = none := by
  have term (negative : Bool) : ({ p with negative } : Piece).term.value? scope = none := by
    obtain ⟨-, a, ha, hv⟩ := h
    rw [Piece.term, Term.value?, Term.product?_of_mem ha hv]
    rfl
  induction ps generalizing negative with
  | nil => exact absurd hm List.not_mem_nil
  | cons piece rest ih =>
      rw [termsOf]
      rcases List.mem_cons.mp hm with rfl | hm
      · rw [if_neg h.1]
        split
        · exact Term.sum?_of_mem List.mem_cons_self (term _)
        · rfl
      · split
        · exact ih hm _
        split
        · exact Term.sum?_of_mem (List.mem_cons_of_mem _ (List.mem_map_of_mem hm)) (term _)
        · rfl

/-- A missing operand behind an operand. -/
theorem termsOf_of_missing {front back : List Piece} {p q : Piece} (hp : p ∈ front)
    (there : trim p.text ≠ []) (missing : trim q.text = []) (negative : Bool) :
    termsOf negative (front ++ q :: back) = none := by
  induction front generalizing negative with
  | nil => exact absurd hp List.not_mem_nil
  | cons piece rest ih =>
      rw [List.cons_append, termsOf]
      split
      case isTrue blank =>
          rcases List.mem_cons.mp hp with rfl | hp
          · exact absurd blank there
          · exact ih hp _
      case isFalse =>
          rw [if_neg]
          rw [List.all_eq_true]
          intro all
          have full := all q (List.mem_append_right rest List.mem_cons_self)
          exact absurd missing (of_decide_eq_true full)

/-- The sign in front of a text goes to its first piece. -/
theorem exists_pieces_cons (quote : Option Char) (text : List Char) :
    ∃ first more, ∀ negative, pieces quote negative text = ⟨negative, first⟩ :: more := by
  induction text generalizing quote with
  | nil => exact ⟨[], [], fun _ => rfl⟩
  | cons c rest ih =>
      have push (quote : Option Char) : ∃ first more, ∀ negative,
          Piece.push c (pieces quote negative rest) = ⟨negative, first⟩ :: more := by
        obtain ⟨first, more, split⟩ := ih quote
        exact ⟨c :: first, more, fun negative => by rw [split]; rfl⟩
      cases quote with
      | some q => exact push _
      | none =>
          simp only [pieces]
          split
          · exact push _
          split
          · exact ⟨[], _, fun _ => rfl⟩
          · exact push _

/-- The sign in front of a text and the one so far come to the same. -/
theorem termsOf_pieces (sign negative : Bool) (text : List Char) :
    termsOf sign (pieces none negative text) =
      termsOf (sign ^^ negative) (pieces none false text) := by
  obtain ⟨first, more, split⟩ := exists_pieces_cons none text
  simp only [split, termsOf, Bool.xor_false]

/-! ## signs and quotation marks -/

/-- Which quotation mark is open behind a text, unless a sign is met while none is open. -/
def scan : Option Char → List Char → Option (Option Char)
  | quote, [] => some quote
  | some q, c :: rest => scan (if c = q then none else some q) rest
  | none, c :: rest =>
    if isQuote c then scan (some c) rest
    else if c = '+' ∨ c = '-' then none
    else scan none rest

theorem scan_append (quote : Option Char) (front back : List Char) :
    scan quote (front ++ back) = (scan quote front).bind (scan · back) := by
  induction front generalizing quote with
  | nil => cases quote <;> rfl
  | cons c rest ih =>
      cases quote with
      | some q =>
          rw [List.cons_append, scan, scan, ih]
      | none =>
          rw [List.cons_append, scan, scan]
          split
          · exact ih _
          split
          · rfl
          · exact ih _

/-- What holds no mark leaves everything as it is. -/
theorem scan_of_plain (h : ∀ c ∈ text, isMark c = false) {quote : Option Char}
    (quoted : ∀ q ∈ quote, isQuote q = true) : scan quote text = some quote := by
  induction text with
  | nil => cases quote <;> rfl
  | cons c rest ih =>
      have plain := h c List.mem_cons_self
      simp only [isMark, Bool.or_eq_false_iff, decide_eq_false_iff_not] at plain
      have rest := ih fun d hd => h d (List.mem_cons_of_mem c hd)
      cases quote with
      | none => simp [scan, plain, rest]
      | some q =>
          have other : c ≠ q := by
            rintro rfl
            rw [quoted c rfl] at plain
            exact absurd plain.1.1 (by decide)
          rw [scan, if_neg other, rest]

/-- Only a quotation mark is ever open. -/
theorem quoted_of_scan {quote after : Option Char} (quoted : ∀ q ∈ quote, isQuote q = true)
    (h : scan quote text = some after) : ∀ q ∈ after, isQuote q = true := by
  induction text generalizing quote with
  | nil =>
      cases quote <;> cases h
      · exact quoted_none
      · exact quoted
  | cons c rest ih =>
      cases quote with
      | some q =>
          rw [scan] at h
          refine ih (fun d hd => ?_) h
          split at hd
          · cases hd
          · exact quoted d hd
      | none =>
          rw [scan] at h
          split at h
          case isTrue quote => exact ih (fun d hd => by cases hd; exact quote) h
          case isFalse =>
              split at h
              case isTrue => cases h
              case isFalse => exact ih quoted_none h

/-- A text in which no sign is met belongs to the first piece. -/
theorem pieces_of_scan {quote after : Option Char} {front : List Char}
    (h : scan quote front = some after) (negative : Bool) (back : List Char) :
    pieces quote negative (front ++ back) =
      front.foldr Piece.push (pieces after negative back) := by
  induction front generalizing quote with
  | nil =>
      cases quote <;> cases h <;> rfl
  | cons c rest ih =>
      cases quote with
      | some q =>
          rw [scan] at h
          rw [List.cons_append, pieces, List.foldr_cons, ih h]
      | none =>
          rw [scan] at h
          rw [List.cons_append, pieces, List.foldr_cons]
          split at h
          case isTrue quote => rw [if_pos quote, ih h]
          case isFalse quote =>
              split at h
              case isTrue => cases h
              case isFalse sign => rw [if_neg quote, if_neg sign, ih h]

/-- A sign ends the first piece where no quotation mark is open. -/
theorem pieces_of_sign {quote : Option Char} {front : List Char} {sign : Char}
    (h : scan quote front = some none) (hs : sign = '+' ∨ sign = '-') (negative : Bool)
    (back : List Char) :
    pieces quote negative (front ++ sign :: back) =
      ⟨negative, front⟩ :: pieces none (sign = '-') back := by
  have plain : isQuote sign = false := by rcases hs with rfl | rfl <;> decide
  rw [pieces_of_scan h, pieces, if_neg (by rw [plain]; decide), if_pos hs, foldr_push,
    List.append_nil]

/-- Without a sign there is only one piece. -/
theorem pieces_of_end {quote after : Option Char} {front : List Char}
    (h : scan quote front = some after) (negative : Bool) :
    pieces quote negative front = [⟨negative, front⟩] := by
  have all := pieces_of_scan h negative []
  rwa [List.append_nil, pieces, foldr_push, List.append_nil] at all

/-- Behind an open quotation mark, any character belongs to the first piece. -/
theorem exists_pieces_of_open {front : List Char} {q : Char} (h : scan none front = some (some q))
    (c : Char) (back : List Char) : ∃ first more, ∀ negative,
      pieces none negative (front ++ c :: back) = ⟨negative, front ++ c :: first⟩ :: more := by
  obtain ⟨first, more, split⟩ := exists_pieces_cons (if c = q then none else some q) back
  refine ⟨first, more, fun negative => ?_⟩
  rw [pieces_of_scan h, pieces, split, Piece.push, foldr_push]

theorem pieces_star (negative : Bool) (back : List Char) :
    pieces none negative ('*' :: back) = Piece.push '*' (pieces none negative back) := by
  rw [pieces, if_neg (by decide), if_neg (by decide)]

/-- Outside of quotes, a star belongs to the first piece. -/
theorem exists_pieces_of_star {front : List Char} (h : scan none front = some none)
    (back : List Char) : ∃ first more, ∀ negative,
      pieces none negative (front ++ '*' :: back) = ⟨negative, front ++ '*' :: first⟩ :: more := by
  obtain ⟨first, more, split⟩ := exists_pieces_cons none back
  refine ⟨first, more, fun negative => ?_⟩
  rw [pieces_of_scan h, pieces_star, split, Piece.push, foldr_push]

end Expr

end Z80Workbench
