import Z80Workbench.Expr.Basic
import Z80Workbench.Proofs.Text.Sign

/-!
# Z80Workbench.Proofs.Expr.LetterCase

Expressions in capital letters.  Names and numerals are read in either letter case; only a character
literal tells the cases apart.  A text without a literal that upper case changes is read alike
before and after.
-/

namespace Z80Workbench.Expr

open Text

/-- Somewhere in the text, a character that upper case changes stands between two equal quotation
marks. -/
def HoldsLower (text : List Char) : Prop :=
  ∃ q c, isQuote q = true ∧ ¬ IsFixed c ∧ [q, c, q] <:+: text

/-- A part of a text without such a character is one. -/
theorem not_holdsLower_of_part {part text : List Char} (h : ¬ HoldsLower text)
    (hp : part <:+: text) : ¬ HoldsLower part := by
  rintro ⟨q, c, hq, hc, hin⟩
  exact h ⟨q, c, hq, hc, hin.trans hp⟩

/-- Nothing is quoted without a quotation mark. -/
theorem not_holdsLower_of_unquoted {text : List Char} (h : text.any isQuote = false) :
    ¬ HoldsLower text := by
  rintro ⟨q, c, hq, _, hin⟩
  have mem : q ∈ text := hin.subset List.mem_cons_self
  exact List.any_eq_false.mp h q mem hq

theorem infix_trim (text : List Char) : trim text <:+: text := by
  obtain ⟨lead, trail, he, _⟩ := exists_of_trim text
  exact ⟨lead, trail, he.symm⟩

/-! ## marks -/

/-- A quotation mark, or a sign in front of which an expression may be split. -/
def isMark (c : Char) : Bool := isQuote c || c = '+' || c = '-'

theorem sign_of_isQuote {c : Char} (h : isQuote c = true) : c ∈ signs := by
  simp only [isQuote, Bool.or_eq_true, decide_eq_true_eq] at h
  rcases h with rfl | rfl <;> decide

theorem isBlank_of_isQuote {c : Char} (h : isQuote c = true) : isBlank c = false := by
  simp only [isQuote, Bool.or_eq_true, decide_eq_true_eq] at h
  rcases h with rfl | rfl <;> decide

theorem isSteady_of_isQuote {q : Char} (h : isQuote q = true) : IsSteady q :=
  isSteady_of_sign (sign_of_isQuote h)

theorem isSteady_of_isMark {c : Char} (h : isMark c = true) : IsSteady c := by
  simp only [isMark, Bool.or_eq_true, decide_eq_true_eq] at h
  obtain (hq | rfl) | rfl := h
  · exact isSteady_of_isQuote hq
  all_goals exact isSteady_of_ascii (by decide) (by decide)

theorem isSteady_star : IsSteady '*' := isSteady_of_ascii (by decide) (by decide)

/-- Upper case leads to no mark from any other character. -/
theorem isMark_of_mem_upperChar {c d : Char} (hc : isMark c = false) (h : d ∈ upperChar c) :
    isMark d = false := by
  rw [← Bool.not_eq_true]
  intro hd
  rw [← (isSteady_of_isMark hd).only c h, hd] at hc
  contradiction

/-! ## literals and names -/

/-- A character literal is its character between two equal quotation marks. -/
theorem exists_of_character {text : List Char} {n : Nat} (h : character? text = some n) :
    ∃ q c, isQuote q = true ∧ text = [q, c, q] := by
  unfold character? at h
  split at h
  case h_1 opening c closing =>
      split at h
      case isTrue quoted =>
          obtain ⟨hq, rfl⟩ := quoted
          exact ⟨closing, c, hq, rfl⟩
      case isFalse => contradiction
  case h_2 => contradiction

theorem upper_eq_nil_iff {text : List Char} : upper text = [] ↔ text = [] := by
  cases text with
  | nil => simp
  | cons c rest => simp [upperChar_ne_nil]

/-- What upper case makes a character between quotation marks has been one before. -/
theorem exists_of_upper_quoted {text : List Char} {q d : Char} (hq : isQuote q = true)
    (h : upper text = [q, d, q]) : ∃ c, text = [q, c, q] := by
  have sign : q ∈ signs := sign_of_isQuote hq
  have starts : upper text = [] ++ q :: [d, q] := h
  obtain ⟨before, after, rfl, hb⟩ := exists_of_upper_eq sign starts
  obtain rfl := upper_eq_nil_iff.mp hb.symm
  rw [List.nil_append, upper_cons, upperChar_of_sign sign] at h
  have ends : upper after = [d] ++ q :: [] := (List.cons_eq_cons.mp h).2
  obtain ⟨inside, behind, rfl, hi⟩ := exists_of_upper_eq sign ends
  rw [upper_append, ← hi, upper_cons, upperChar_of_sign sign] at h
  have none : upper behind = [] := by simpa using h
  obtain rfl := upper_eq_nil_iff.mp none
  -- every character has an upper case, so that only one stands inside
  match inside, hi with
  | [c], _ => exact ⟨c, rfl⟩
  | c :: c' :: rest, hi =>
      have long := congrArg List.length hi
      have one := List.length_pos_of_ne_nil (upperChar_ne_nil c)
      have two := List.length_pos_of_ne_nil (upperChar_ne_nil c')
      simp only [upper_cons, List.length_append, List.length_singleton] at long
      omega

theorem character?_upper {text : List Char} (h : ¬ HoldsLower text) :
    character? (upper text) = character? text := by
  by_cases quoted : ∃ q c, isQuote q = true ∧ text = [q, c, q]
  · obtain ⟨q, c, hq, rfl⟩ := quoted
    have fixed : IsFixed c := by
      by_contra hc
      exact h ⟨q, c, hq, hc, List.infix_refl _⟩
    have mark : IsFixed q := (isSteady_of_isQuote hq).fixed
    rw [upper_of_fixed (by simp [fixed, mark])]
  · have before : character? text = none := by
      rw [← Option.not_isSome_iff_eq_none]
      intro some
      obtain ⟨n, hn⟩ := Option.isSome_iff_exists.mp some
      exact quoted (exists_of_character hn)
    rw [before, ← Option.not_isSome_iff_eq_none]
    intro some
    obtain ⟨n, hn⟩ := Option.isSome_iff_exists.mp some
    obtain ⟨q, d, hq, he⟩ := exists_of_character hn
    obtain ⟨c, hc⟩ := exists_of_upper_quoted hq he
    exact quoted ⟨q, c, hq, hc⟩

/-- A literal or name is read alike in capital letters. -/
theorem Atom.read_upper {text : List Char} (h : ¬ HoldsLower text) :
    read (upper text) = read text := by
  have literal : literal? (upper text) = literal? text := by
    simp only [literal?, trim_upper, upper_upper,
      character?_upper (not_holdsLower_of_part h (infix_trim text))]
  rw [read, read, literal, trim_upper, upper_upper]

/-! ## products -/

theorem splitAt_append {separator : Char} {front : List Char} (h : separator ∉ front)
    (text : List Char) :
    splitAt separator (front ++ text) = front.foldr pushFront (splitAt separator text) := by
  induction front with
  | nil => rfl
  | cons c front ih =>
      have other : c ≠ separator := fun he => h (he ▸ List.mem_cons_self)
      rw [List.cons_append, splitAt, if_neg other,
        ih fun hm => h (List.mem_cons_of_mem c hm), List.foldr_cons]

theorem foldr_pushFront (front piece : List Char) (rest : List (List Char)) :
    front.foldr pushFront (piece :: rest) = (front ++ piece) :: rest := by
  induction front with
  | nil => rfl
  | cons c front ih => rw [List.foldr_cons, ih]; rfl

/-- A text is split at the same places in capital letters. -/
theorem splitAt_upper {separator : Char} (hs : IsSteady separator) (text : List Char) :
    splitAt separator (upper text) = (splitAt separator text).map upper := by
  induction text with
  | nil => rfl
  | cons c rest ih =>
      rw [upper_cons]
      by_cases hc : c = separator
      · have fixed : upperChar c = [c] := hc ▸ hs.fixed
        rw [fixed, List.singleton_append, splitAt, splitAt, if_pos hc, if_pos hc, ih]
        rfl
      · have absent : separator ∉ upperChar c := fun hm => hc (hs.only c hm).symm
        obtain ⟨piece, more, split⟩ := List.exists_cons_of_ne_nil (splitAt_ne_nil separator rest)
        rw [splitAt_append absent, ih, splitAt, if_neg hc, split, List.map_cons,
          foldr_pushFront]
        rfl

/-- The pieces of a text are parts of it, the first one at its start. -/
theorem exists_splitAt (separator : Char) (text : List Char) :
    ∃ first more, splitAt separator text = first :: more ∧ first <+: text ∧
      ∀ piece ∈ more, piece <:+: text := by
  induction text with
  | nil => exact ⟨[], [], rfl, List.prefix_rfl, fun _ h => absurd h List.not_mem_nil⟩
  | cons c rest ih =>
      obtain ⟨first, more, split, hf, hm⟩ := ih
      rw [splitAt, split]
      split
      · refine ⟨[], first :: more, rfl, List.nil_prefix, fun piece hp => ?_⟩
        obtain rfl | hp := List.mem_cons.mp hp
        · exact List.infix_cons hf.isInfix
        · exact List.infix_cons (hm piece hp)
      · exact ⟨c :: first, more, rfl, List.cons_prefix_cons.mpr ⟨rfl, hf⟩,
          fun piece hp => List.infix_cons (hm piece hp)⟩

theorem infix_of_mem_splitAt {separator : Char} {text piece : List Char}
    (h : piece ∈ splitAt separator text) : piece <:+: text := by
  obtain ⟨first, more, split, hf, hm⟩ := exists_splitAt separator text
  rw [split] at h
  obtain rfl | h := List.mem_cons.mp h
  · exact hf.isInfix
  · exact hm piece h

theorem contains_upper {c : Char} (hc : IsSteady c) (text : List Char) :
    (upper text).contains c = text.contains c := by
  rw [Bool.eq_iff_iff, List.contains_iff_mem, List.contains_iff_mem]
  constructor
  · intro h
    obtain ⟨d, hd, hm⟩ := List.mem_flatMap.mp h
    exact hc.only d hm ▸ hd
  · intro h
    exact List.mem_flatMap.mpr ⟨c, h, by rw [hc.fixed]; exact List.mem_singleton_self c⟩

theorem quoted_upper (text : List Char) :
    (upper text).head?.any isQuote = text.head?.any isQuote := by
  cases text with
  | nil => rfl
  | cons c rest =>
      obtain ⟨d, ds, hd⟩ := List.exists_cons_of_ne_nil (upperChar_ne_nil c)
      have same : isQuote d = isQuote c := by
        rw [Bool.eq_iff_iff]
        constructor
        · intro hq
          have he := (isSteady_of_isQuote hq).only c (by rw [hd]; exact List.mem_cons_self)
          exact he ▸ hq
        · intro hq
          have fixed : upperChar c = [c] := (isSteady_of_isQuote hq).fixed
          rw [hd] at fixed
          rw [(List.cons_eq_cons.mp fixed).1]
          exact hq
      simp [hd, same]

/-- A product is read alike in capital letters. -/
theorem factors_upper {text : List Char} (h : ¬ HoldsLower text) :
    factors (upper text) = factors text := by
  rw [factors, contains_upper isSteady_star, quoted_upper, splitAt_upper isSteady_star,
    Atom.read_upper h, factors, List.map_map]
  have pieces : (splitAt '*' text).map (Atom.read ∘ upper) = (splitAt '*' text).map Atom.read :=
    List.map_congr_left fun piece hp =>
      Atom.read_upper (not_holdsLower_of_part h (infix_of_mem_splitAt hp))
  rw [pieces]

/-! ## sums -/

/-- A piece in capital letters. -/
def Piece.upper (piece : Piece) : Piece := { piece with text := Text.upper piece.text }

theorem Piece.term_upper {piece : Piece} (h : ¬ HoldsLower piece.text) :
    piece.upper.term = piece.term := by
  rw [term, term, upper, trim_upper,
    factors_upper (not_holdsLower_of_part h (infix_trim piece.text))]

theorem foldr_push (front : List Char) (piece : Piece) (rest : List Piece) :
    front.foldr Piece.push (piece :: rest) =
      { piece with text := front ++ piece.text } :: rest := by
  induction front with
  | nil => rfl
  | cons c front ih => rw [List.foldr_cons, ih]; rfl

/-- What holds no mark belongs to the first piece. -/
theorem pieces_append {quote : Option Char} (quoted : ∀ q ∈ quote, isQuote q = true)
    (negative : Bool) {front : List Char} (h : ∀ c ∈ front, isMark c = false) (text : List Char) :
    pieces quote negative (front ++ text) =
      front.foldr Piece.push (pieces quote negative text) := by
  induction front with
  | nil => rfl
  | cons c front ih =>
      have plain := h c List.mem_cons_self
      simp only [isMark, Bool.or_eq_false_iff, decide_eq_false_iff_not] at plain
      rw [List.cons_append, List.foldr_cons, ← ih fun d hd => h d (List.mem_cons_of_mem c hd)]
      cases quote with
      | none => simp [pieces, plain]
      | some q =>
          have other : c ≠ q := by
            rintro rfl
            rw [quoted c rfl] at plain
            exact absurd plain.1.1 (by decide)
          rw [pieces, if_neg other]

/-- The pieces of a sum are parts of its text, the first one at its start. -/
theorem exists_pieces (quote : Option Char) (negative : Bool) (text : List Char) :
    ∃ first more, pieces quote negative text = first :: more ∧ first.text <+: text ∧
      ∀ piece ∈ more, piece.text <:+: text := by
  induction text generalizing quote negative with
  | nil => exact ⟨⟨negative, []⟩, [], rfl, List.prefix_rfl, fun _ h => absurd h List.not_mem_nil⟩
  | cons c rest ih =>
      have push (quote : Option Char) : ∃ first more,
          Piece.push c (pieces quote negative rest) = first :: more ∧ first.text <+: c :: rest ∧
            ∀ piece ∈ more, piece.text <:+: c :: rest := by
        obtain ⟨first, more, split, hf, hm⟩ := ih quote negative
        rw [split]
        exact ⟨_, more, rfl, List.cons_prefix_cons.mpr ⟨rfl, hf⟩,
          fun piece hp => List.infix_cons (hm piece hp)⟩
      unfold pieces
      split
      · exact push _
      split
      · exact push _
      split
      · obtain ⟨first, more, split, hf, hm⟩ := ih none (c = '-')
        rw [split]
        refine ⟨⟨negative, []⟩, first :: more, rfl, List.nil_prefix, fun piece hp => ?_⟩
        obtain rfl | hp := List.mem_cons.mp hp
        · exact List.infix_cons hf.isInfix
        · exact List.infix_cons (hm piece hp)
      · exact push _

theorem infix_of_mem_pieces {quote : Option Char} {negative : Bool} {text : List Char}
    {piece : Piece} (h : piece ∈ pieces quote negative text) : piece.text <:+: text := by
  obtain ⟨first, more, split, hf, hm⟩ := exists_pieces quote negative text
  rw [split] at h
  obtain rfl | h := List.mem_cons.mp h
  · exact hf.isInfix
  · exact hm piece h

/-- A character in front of some pieces, in capital letters. -/
theorem map_upper_push (c : Char) {pieces : List Piece} (h : pieces ≠ []) :
    (Piece.push c pieces).map Piece.upper =
      (upperChar c).foldr Piece.push (pieces.map Piece.upper) := by
  obtain ⟨first, more, rfl⟩ := List.exists_cons_of_ne_nil h
  rw [List.map_cons, foldr_push]
  rfl

theorem pieces_ne_nil (quote : Option Char) (negative : Bool) (text : List Char) :
    pieces quote negative text ≠ [] := by
  obtain ⟨first, more, split, _⟩ := exists_pieces quote negative text
  rw [split]
  exact List.cons_ne_nil _ _

/-- Outside of quotes, no quotation mark is open. -/
theorem quoted_none : ∀ q ∈ (none : Option Char), isQuote q = true := fun _ h => nomatch h

/-- A sum is split at the same signs in capital letters. -/
theorem pieces_upper {quote : Option Char} (quoted : ∀ q ∈ quote, isQuote q = true)
    (negative : Bool) (text : List Char) :
    pieces quote negative (upper text) = (pieces quote negative text).map Piece.upper := by
  induction text generalizing quote negative with
  | nil => rfl
  | cons c rest ih =>
      rw [upper_cons]
      cases mark : isMark c with
      | false =>
          have plain : ∀ d ∈ upperChar c, isMark d = false :=
            fun d hd => isMark_of_mem_upperChar mark hd
          have front : pieces quote negative (c :: rest) =
              Piece.push c (pieces quote negative rest) :=
            pieces_append quoted negative (List.forall_mem_singleton.mpr mark) rest
          rw [pieces_append quoted negative plain, ih quoted, front,
            map_upper_push c (pieces_ne_nil _ _ _)]
      | true =>
          have fixed : upperChar c = [c] := (isSteady_of_isMark mark).fixed
          -- a mark is pushed as it is
          have push (quote : Option Char) (hq : ∀ q ∈ quote, isQuote q = true) :
              Piece.push c (pieces quote negative (upper rest)) =
                (Piece.push c (pieces quote negative rest)).map Piece.upper := by
            rw [map_upper_push c (pieces_ne_nil _ _ _), fixed, ih hq]
            rfl
          rw [fixed, List.singleton_append]
          cases quote with
          | some q =>
              rw [pieces, pieces]
              refine push _ fun q' hq' => ?_
              split at hq'
              · cases hq'
              · exact quoted q' hq'
          | none =>
              rw [pieces, pieces]
              split
              case isTrue hq =>
                  refine push _ fun q' hq' => ?_
                  cases hq'
                  exact hq
              case isFalse =>
                  split
                  · rw [List.map_cons, ih quoted_none]
                    rfl
                  · exact push none quoted_none

/-- A sum is read alike in capital letters. -/
theorem termsOf_upper {pieces : List Piece} (h : ∀ piece ∈ pieces, ¬ HoldsLower piece.text)
    (negative : Bool) : termsOf negative (pieces.map Piece.upper) = termsOf negative pieces := by
  have blank (piece : Piece) : trim piece.upper.text = [] ↔ trim piece.text = [] := by
    rw [Piece.upper, trim_upper, upper_eq_nil_iff]
  induction pieces generalizing negative with
  | nil => rfl
  | cons piece rest ih =>
      have others : ∀ other ∈ rest, ¬ HoldsLower other.text :=
        fun other ho => h other (List.mem_cons_of_mem piece ho)
      have terms : (rest.map Piece.upper).map Piece.term = rest.map Piece.term := by
        rw [List.map_map]
        exact List.map_congr_left fun other ho => Piece.term_upper (others other ho)
      have full : (rest.map Piece.upper).all (trim ·.text ≠ []) = rest.all (trim ·.text ≠ []) := by
        rw [List.all_map, Bool.eq_iff_iff]
        simp [blank]
      have first : ({ piece with negative := negative ^^ piece.negative } : Piece).upper.term =
          ({ piece with negative := negative ^^ piece.negative } : Piece).term :=
        Piece.term_upper (h piece List.mem_cons_self)
      rw [List.map_cons, termsOf, termsOf, ih others, terms, full]
      simp only [blank]
      split
      · rfl
      · split
        · exact congrArg (fun term => some (term :: rest.map Piece.term)) first
        · rfl

/-- An expression is read alike in capital letters, unless it holds a character literal that upper
case changes. -/
theorem read_upper {text : List Char} (h : ¬ HoldsLower text) :
    read (upper text) = { read text with text := String.ofList (upper text) } := by
  have terms : termsOf false (pieces none false (upper text)) =
      termsOf false (pieces none false text) := by
    rw [pieces_upper quoted_none]
    exact termsOf_upper (fun piece hp => not_holdsLower_of_part h (infix_of_mem_pieces hp)) false
  simp only [read, Atom.read_upper h, terms]

/-- Such an expression has the same value in capital letters. -/
theorem value?_read_upper {text : List Char} (h : ¬ HoldsLower text) (scope : Scope) :
    (read (upper text)).value? scope = (read text).value? scope := by
  rw [read_upper h]
  rfl

end Z80Workbench.Expr
