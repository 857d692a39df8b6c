import Mathlib.Data.List.Forall2
import Z80Workbench.Proofs.Expr.Formula

/-!
# Z80Workbench.Proofs.Expr.CharacterLiteral

Character literals in place of numerals.  A formula in which numerals are written as the characters
that they are the codes of has the same arithmetic, but is not always read as such: the first one of
several factors is refused, a star is taken for an operator, and a quotation mark between two of its
own kind leaves one open.  `Formula.Readable` says exactly when none of this happens; a formula
that is not readable has no value.
-/

namespace Z80Workbench.Formula

open Text
open Z80Workbench.Expr (Atom Term Piece KnowsIdentifiers isQuote operators scan)

variable {scope : Expr.Scope} {e e' : Formula}

/-! ## respelling -/

/-- A numeral may be written as a character with this code. -/
inductive Token.Respelled : Token → Token → Prop
  | same (t : Token) : Respelled t t
  | character {text : List Char} {n : Nat} {denotes : Expr.Denotes text n}
      {plain : ∀ c ∈ text, isQuote c = false} (mark c : Char) (quotes : isQuote mark = true)
      (code : c.toNat = n) : Respelled (.numeral text n denotes plain) (.character mark c quotes)

structure Factor.Respelled (f g : Factor) : Prop where
  lead : g.lead = f.lead
  token : f.token.Respelled g.token
  trail : g.trail = f.trail

structure Product.Respelled (p q : Product) : Prop where
  first : p.first.Respelled q.first
  rest : List.Forall₂ Factor.Respelled p.rest q.rest

/-- Some numerals of a formula are written as characters. -/
structure Respelled (e e' : Formula) : Prop where
  signs : e'.signs = e.signs
  first : e.first.Respelled e'.first
  rest : List.Forall₂ (fun t u => u.1 = t.1 ∧ t.2.Respelled u.2) e.rest e'.rest

theorem map_eq_of_forall₂ {α β : Type} {R : α → α → Prop} {g : α → β}
    (hg : ∀ x y, R x y → g y = g x) {xs ys : List α} (h : List.Forall₂ R xs ys) :
    ys.map g = xs.map g := by
  induction h with
  | nil => rfl
  | cons first _ ih => rw [List.map_cons, List.map_cons, hg _ _ first, ih]

theorem Token.Respelled.value {t u : Token} (h : t.Respelled u) (env : String → Int) :
    u.value env = t.value env := by
  cases h with
  | same => rfl
  | character mark c quotes code => exact congrArg Int.ofNat code

theorem Token.Respelled.name? {t u : Token} (h : t.Respelled u) : u.name? = t.name? := by
  cases h with
  | same | character => rfl

namespace Product.Respelled

variable {p q : Product} (h : p.Respelled q)
include h

theorem value (env : String → Int) : q.value env = p.value env := by
  rw [Product.value, foldl_mul, h.first.token.value env,
    map_eq_of_forall₂ (fun _ _ same => same.token.value env) h.rest, Product.value, foldl_mul]

theorem names : q.factors.map (·.token.name?) = p.factors.map (·.token.name?) :=
  map_eq_of_forall₂ (fun _ _ same => same.token.name?) (.cons h.first h.rest)

end Product.Respelled

namespace Respelled

variable (h : e.Respelled e')
include h

theorem value (env : String → Int) : e'.value env = e.value env := by
  have rest : e'.rest.map (Formula.signed env) = e.rest.map (Formula.signed env) := by
    refine map_eq_of_forall₂ (fun t u same => ?_) h.rest
    rw [Formula.signed, same.1, same.2.value env]
    rfl
  rw [Formula.value, foldl_signed, rest, h.signs, h.first.value env, Formula.value, foldl_signed]

theorem products : List.Forall₂ Product.Respelled e.products e'.products := by
  refine .cons h.first ?_
  rw [List.forall₂_map_left_iff, List.forall₂_map_right_iff]
  exact h.rest.imp fun _ _ same => same.2

theorem names : e'.names = e.names := by
  have all (e : Formula) : e.names =
      (e.products.map fun p => p.factors.map (·.token.name?)).flatten.filterMap id := by
    simp [Formula.names, tokens, List.flatMap, List.filterMap_flatten, List.filterMap_map,
      Function.comp_def]
  rw [all, all, map_eq_of_forall₂ (fun _ _ same => same.names) h.products]

end Respelled

/-! ## quotation marks that are left open -/

/-- What stands between an opening mark and the star or sign that cuts the text. -/
theorem value?_of_mark (known : KnowsIdentifiers scope.value?) (lead : Blanks) {mark : Char}
    (quotes : isQuote mark = true) : (Atom.read (lead.val ++ [mark])).value? scope = none := by
  have operator : mark ∈ operators :=
    Expr.mem_operators_of_isMark (by rw [Expr.isMark, quotes]; rfl)
  refine Atom.value?_of_operator known operator (by simp) fun character => ?_
  obtain ⟨-, c, trail, he, -⟩ :=
    Expr.exists_of_isCharacter lead.property (Expr.isBlank_of_operator operator) character
  cases he

theorem star_not_mem_of_quote (lead : Blanks) {mark : Char} (quotes : isQuote mark = true) :
    '*' ∉ lead.val ++ [mark] := by
  have other : '*' ≠ mark := by
    rintro rfl
    exact absurd quotes (by decide)
  simp [Expr.star_not_mem_of_blank lead.property, other]

/-- A character literal is one factor with all that follows it, which has no value. -/
theorem stuck_of_character (known : KnowsIdentifiers scope.value?) {f : Factor}
    (h : f.token.character?.isSome = true) {back : List Char} {c : Char} (operator : c ∈ operators)
    (mem : c ∈ back) : Expr.Stuck scope (f.text ++ back) :=
  Expr.stuck_of_quoted known ((f.startsQuoted_iff back).mpr h) (f.not_isCharacter operator mem)

/-- A product is stuck at a later factor, if the first one is no character literal. -/
theorem stuck_of_later {f : Factor} (h : f.token.character? = none) (front : List Char)
    {back part : List Char} (mem : part ∈ splitAt '*' back)
    (none : (Atom.read part).value? scope = none) :
    Expr.Stuck scope (f.text ++ front ++ '*' :: back) := by
  have plain : ¬Expr.StartsQuoted (f.text ++ front ++ '*' :: back) := by
    rw [List.append_assoc, f.startsQuoted_iff, h]
    decide
  refine Expr.stuck_of_part plain (by simp) ?_ none
  rw [Expr.splitAt_separator]
  exact List.mem_append_right _ mem

theorem laterText_append (front : List Factor) (f : Factor) (back : List Factor) :
    laterText (front ++ f :: back) = laterText front ++ '*' :: (f.text ++ laterText back) := by
  simp [laterText]

theorem Factor.text_of_character {f : Factor} {mark c : Char} {quotes : isQuote mark = true}
    (h : f.token = .character mark c quotes) :
    f.text = f.lead.val ++ [mark] ++ c :: mark :: f.trail.val := by
  simp [text, h, Token.text]

/-- The star between quotation marks is an operator. -/
theorem stuck_of_star (known : KnowsIdentifiers scope.value?) {p : Product}
    (h : p.first.token.character? = none) {f : Factor} (hf : f ∈ p.rest)
    (star : f.token.character? = some '*') (back : List Char) :
    Expr.Stuck scope (p.text ++ back) := by
  obtain ⟨front, behind, he⟩ := List.append_of_mem hf
  cases ht : f.token with
  | numeral | name => rw [ht] at star; cases star
  | character mark c quotes =>
      rw [ht] at star
      cases star
      have shape : p.text ++ back = p.first.text ++ laterText front ++
          '*' :: (f.lead.val ++ [mark] ++
            '*' :: (mark :: f.trail.val ++ laterText behind ++ back)) := by
        rw [Product.text, he, laterText_append, Factor.text_of_character ht]
        simp
      rw [shape]
      refine stuck_of_later h _ ?_ (value?_of_mark known f.lead quotes)
      rw [Expr.splitAt_separator, Expr.splitAt_of_not_mem (star_not_mem_of_quote f.lead quotes)]
      exact List.mem_cons_self

/-- A product that is not placed has no value. -/
theorem stuck_of_not_placed (known : KnowsIdentifiers scope.value?) {p : Product} (h : ¬p.Placed) :
    Expr.Stuck scope p.text := by
  cases character : p.first.token.character? with
  | some c =>
      -- it is the first one of several factors: with only one, the product is placed
      have several : p.rest ≠ [] := by
        intro single
        exact h ⟨fun ne => absurd single ne, fun f hf => absurd (single ▸ hf) List.not_mem_nil⟩
      obtain ⟨f, rest, he⟩ := List.exists_cons_of_ne_nil several
      exact stuck_of_character known (by rw [character]; rfl) (c := '*') (by decide) (by simp [he])
  | none =>
      have star : ∃ f ∈ p.rest, f.token.character? = some '*' := by
        by_contra all
        exact h ⟨fun _ => character, fun f hf star => all ⟨f, hf, star⟩⟩
      obtain ⟨f, hf, star⟩ := star
      have stuck : Expr.Stuck scope (p.text ++ []) := stuck_of_star known character hf star []
      rwa [List.append_nil] at stuck

/-- A quotation mark is no sign. -/
theorem isSome_scan_mark {mark : Char} (quotes : isQuote mark = true) (quote : Option Char) :
    (scan quote [mark]).isSome = true := by
  cases quote with
  | none => simp [scan, quotes]
  | some q => simp [scan]

/-- A sign is met in a character literal only, where its first mark closes another one. -/
theorem Token.exists_of_scan {t : Token} {quote : Option Char}
    (quoted : ∀ q ∈ quote, isQuote q = true) (h : scan quote t.text = none) :
    ∃ mark c quotes, t = .character mark c quotes ∧ (c = '+' ∨ c = '-') ∧
      scan quote [mark] = some none := by
  cases character : t.character? with
  | none =>
      rw [Expr.scan_of_plain (t.isMark_of_mem character) quoted] at h
      cases h
  | some d =>
      cases t with
      | numeral | name => cases character
      | character mark c quotes =>
          refine ⟨mark, c, quotes, rfl, ?_⟩
          rw [text, ← List.singleton_append, Expr.scan_append] at h
          obtain ⟨after, opens⟩ := Option.isSome_iff_exists.mp (isSome_scan_mark quotes quote)
          rw [opens, Option.bind_some] at h
          have closing (quote : Option Char) : scan quote [mark] ≠ none :=
            Option.isSome_iff_ne_none.mp (isSome_scan_mark quotes quote)
          cases after with
          | some q => exact absurd h (closing _)
          | none =>
              rw [scan] at h
              split at h
              case isTrue => exact absurd h (closing _)
              case isFalse =>
                  split at h
                  case isTrue sign => exact ⟨sign, opens⟩
                  case isFalse => exact absurd h (closing _)

/-- Outside of quotes, the first mark of a character opens. -/
theorem Factor.isSome_scan_text (f : Factor) : (scan none f.text).isSome = true := by
  rw [f.scan_text Expr.quoted_none, Option.isSome_iff_ne_none]
  intro scanned
  obtain ⟨mark, c, quotes, -, -, closes⟩ := Token.exists_of_scan Expr.quoted_none scanned
  simp [scan, quotes] at closes

/-- Where a sign is met among the later factors of a product. -/
theorem exists_of_scan_later {fs : List Factor} {quote : Option Char}
    (quoted : ∀ q ∈ quote, isQuote q = true) (h : scan quote (laterText fs) = none) :
    ∃ front f behind mark c quotes, fs = front ++ f :: behind ∧
      f.token = .character mark c quotes ∧ (c = '+' ∨ c = '-') ∧
      scan quote (laterText front ++ '*' :: (f.lead.val ++ [mark])) = some none := by
  induction fs generalizing quote with
  | nil => cases quote <;> cases h
  | cons f rest ih =>
      rw [laterText_cons, scan_star quoted, Expr.scan_append] at h
      cases scanned : scan quote f.text with
      | none =>
          rw [f.scan_text quoted] at scanned
          obtain ⟨mark, c, quotes, ht, sign, closes⟩ := Token.exists_of_scan quoted scanned
          refine ⟨[], f, rest, mark, c, quotes, rfl, ht, sign, ?_⟩
          rw [laterText_nil, List.nil_append, scan_star quoted, Expr.scan_append,
            f.lead.scan quoted]
          exact closes
      | some after =>
          rw [scanned, Option.bind_some] at h
          obtain ⟨front, g, behind, mark, c, quotes, rfl, hg, sign, closes⟩ :=
            ih (Expr.quoted_of_scan quoted scanned) h
          refine ⟨f :: front, g, behind, mark, c, quotes, rfl, hg, sign, ?_⟩
          rw [laterText_cons, List.cons_append, scan_star quoted, List.append_assoc,
            Expr.scan_append, scanned]
          exact closes

/-- A product in which a sign is met is cut there, behind the mark that was to open a character. -/
theorem exists_of_scan_product (known : KnowsIdentifiers scope.value?) {p : Product}
    (h : scan none p.text = none) :
    ∃ text sign back, p.text = text ++ sign :: back ∧ (sign = '+' ∨ sign = '-') ∧
      scan none text = some none ∧ Expr.Stuck scope text := by
  rw [Product.text, Expr.scan_append] at h
  obtain ⟨after, scanned⟩ := Option.isSome_iff_exists.mp p.first.isSome_scan_text
  rw [scanned, Option.bind_some] at h
  obtain ⟨front, f, behind, mark, c, quotes, he, hf, sign, closes⟩ :=
    exists_of_scan_later (Expr.quoted_of_scan Expr.quoted_none scanned) h
  refine ⟨p.first.text ++ laterText front ++ '*' :: (f.lead.val ++ [mark]), c,
    mark :: f.trail.val ++ laterText behind, ?shape, sign, ?scan, ?stuck⟩
  case shape =>
      rw [Product.text, he, laterText_append, Factor.text_of_character hf]
      simp
  case scan => rw [List.append_assoc, Expr.scan_append, scanned, Option.bind_some, closes]
  case stuck =>
      cases character : p.first.token.character? with
      | some d =>
          rw [List.append_assoc]
          exact stuck_of_character known (by rw [character]; rfl) (c := '*') (by decide)
            (by simp)
      | none =>
          have absent : '*' ∉ f.lead.val ++ [mark] := star_not_mem_of_quote f.lead quotes
          refine stuck_of_later character _ ?_ (value?_of_mark known f.lead quotes)
          rw [Expr.splitAt_of_not_mem absent]
          exact List.mem_singleton_self _

/-- A quotation mark that is left open hides the sign behind the product. -/
theorem stuck_of_open (known : KnowsIdentifiers scope.value?) {p : Product} {q : Char}
    (h : scan none p.text = some (some q)) {sign : Char} (hs : sign = '+' ∨ sign = '-')
    (back : List Char) : Expr.Stuck scope (p.text ++ sign :: back) := by
  have operator : sign ∈ operators := by rcases hs with rfl | rfl <;> decide
  cases character : p.first.token.character? with
  | some d =>
      rw [Product.text, List.append_assoc]
      exact stuck_of_character known (by rw [character]; rfl) operator (by simp)
  | none =>
      obtain single | ⟨front, f, he⟩ := List.eq_nil_or_concat' p.rest
      · -- a single factor that is no character opens nothing
        have plain : ∀ f ∈ p.factors, f.token.holdsMark = false := by
          rw [Product.factors, single]
          exact List.forall_mem_singleton.mpr (Token.holdsMark_of_plain character)
        rw [Product.scan_text plain] at h
        cases h
      · by_cases star : f.token.character? = some '*'
        · exact stuck_of_star known character (by simp [he]) star _
        · obtain ⟨part, more, split⟩ :=
            List.exists_cons_of_ne_nil (splitAt_ne_nil '*' back)
          have other : sign ≠ '*' := by rcases hs with rfl | rfl <;> decide
          have shape : p.text ++ sign :: back =
              p.first.text ++ laterText front ++ '*' :: (f.text ++ sign :: back) := by
            rw [Product.text, he, laterText_append]
            simp
          have cut : splitAt '*' (f.text ++ sign :: back) = (f.text ++ sign :: part) :: more := by
            rw [Expr.splitAt_append (f.star_not_mem star), splitAt, if_neg other, split, pushFront,
              Expr.foldr_pushFront]
          rw [shape]
          refine stuck_of_later character _ (cut ▸ List.mem_cons_self) ?_
          exact Atom.value?_of_operator known operator (by simp)
            (f.not_isCharacter operator List.mem_cons_self)

/-! ## formulas that are not readable -/

theorem sumText_cons (p : Product) (t : Bool × Product) (rest : List (Bool × Product)) :
    sumText p (t :: rest) = p.text ++ signChar t.1 :: sumText t.2 rest := by
  simp [sumText]

/-- The first product that is not read as it was meant leaves a piece without a value. -/
theorem exists_stuck (known : KnowsIdentifiers scope.value?) {p : Product}
    {rest : List (Bool × Product)} (h : ¬SumReadable p rest) (negative : Bool) :
    ∃ piece ∈ Expr.pieces none negative (sumText p rest), Expr.Stuck scope piece.text := by
  -- a sign that is met inside of the product ends the piece, whatever comes behind the product
  have broken {p : Product} (scanned : scan none p.text = none) (negative : Bool)
      (behind : List Char) :
      ∃ piece ∈ Expr.pieces none negative (p.text ++ behind), Expr.Stuck scope piece.text := by
    obtain ⟨text, sign, back, he, hs, closed, stuck⟩ := exists_of_scan_product known scanned
    refine ⟨⟨negative, text⟩, ?_, stuck⟩
    rw [he, List.append_assoc, List.cons_append, Expr.pieces_of_sign closed hs]
    exact List.mem_cons_self
  induction rest generalizing p negative with
  | nil =>
      cases scanned : scan none p.text with
      | none => exact broken scanned negative []
      | some after =>
          have misplaced : ¬p.Placed := fun placed => h ⟨placed, by rw [scanned]; rfl⟩
          refine ⟨⟨negative, p.text⟩, ?_, stuck_of_not_placed known misplaced⟩
          rw [sumText, List.flatMap_nil, List.append_nil, Expr.pieces_of_end scanned]
          exact List.mem_singleton_self _
  | cons t rest ih =>
      have sign := signChar_eq t.1
      rw [sumText_cons]
      cases scanned : scan none p.text with
      | none => exact broken scanned negative _
      | some after =>
          cases after with
          | some q =>
              obtain ⟨first, more, split⟩ :=
                Expr.exists_pieces_of_open scanned (signChar t.1) (sumText t.2 rest)
              exact ⟨_, split negative ▸ List.mem_cons_self,
                stuck_of_open known scanned sign.1 first⟩
          | none =>
              rw [Expr.pieces_of_sign scanned sign.1, sign.2]
              by_cases placed : p.Placed
              · obtain ⟨piece, mem, stuck⟩ := ih (fun others => h ⟨placed, scanned, others⟩) t.1
                exact ⟨piece, List.mem_cons_of_mem _ mem, stuck⟩
              · exact ⟨_, List.mem_cons_self, stuck_of_not_placed known placed⟩

/-- A formula that is not readable has no value. -/
theorem value?_of_not_readable (known : KnowsIdentifiers scope.value?) (h : ¬e.Readable) :
    (Expr.read e.text).value? scope = none := by
  obtain ⟨-, factors, products⟩ | composite := e.single_or_composite
  · -- a single factor is always read as it was meant
    have single : e.Readable := by
      rw [Readable, products]
      refine ⟨⟨fun ne => absurd factors ne, fun f hf => absurd (factors ▸ hf) List.not_mem_nil⟩, ?_⟩
      rw [Product.text, factors, laterText_nil, List.append_nil]
      exact e.first.first.isSome_scan_text
    exact absurd single h
  · obtain ⟨piece, mem, stuck⟩ := exists_stuck known h false
    rw [Expr.value?_of_whole (composite.value?_eq_none known), text, termsOf_signs,
      Expr.sum?_of_stuck mem stuck]
    rfl

/-! ## characters in place of numerals -/

/-- **Character literals in expressions.**  A formula in which numerals are written as the
characters they are the codes of keeps its value exactly if it is readable, or has no value anyway.
It is readable exactly if no character is the first one of several factors and no later factor is a
star, as long as no character is its own quotation mark. -/
theorem value?_respelled (known : KnowsIdentifiers scope.value?) (h : e.Respelled e') :
    (e'.Readable →
      (∀ env : String → Int, (∀ x ∈ e.names, scope.value? x = some (env x)) →
        (Expr.read e'.text).value? scope = some (word (e.value env))) ∧
      ((Expr.read e'.text).value? scope = none ↔ ∃ x ∈ e.names, scope.value? x = none)) ∧
    (¬e'.Readable → (Expr.read e'.text).value? scope = none) ∧
    (e.Readable → ((Expr.read e'.text).value? scope = (Expr.read e.text).value? scope ↔
      e'.Readable ∨ (Expr.read e.text).value? scope = none)) ∧
    ((∀ t ∈ e'.tokens, t.holdsMark = false) →
      (e'.Readable ↔ ∀ p ∈ e'.products, p.Placed)) := by
  have readable (readable : e'.Readable) :
      (∀ env : String → Int, (∀ x ∈ e.names, scope.value? x = some (env x)) →
        (Expr.read e'.text).value? scope = some (word (e.value env))) ∧
      ((Expr.read e'.text).value? scope = none ↔ ∃ x ∈ e.names, scope.value? x = none) := by
    obtain ⟨value, unbound⟩ := value?_of_readable known readable
    rw [h.names] at value unbound
    exact ⟨fun env bound => h.value env ▸ value env bound, unbound⟩
  refine ⟨readable, value?_of_not_readable known, fun before => ⟨fun same => ?_, ?_⟩,
    readable_iff_placed⟩
  · by_contra neither
    rw [not_or] at neither
    rw [value?_of_not_readable known neither.1] at same
    exact neither.2 same.symm
  · obtain ⟨value, unbound⟩ := value?_of_readable known before
    rintro (after | nothing)
    · by_cases all : ∃ x ∈ e.names, scope.value? x = none
      · rw [(readable after).2.mpr all, unbound.mpr all]
      · obtain ⟨env, values⟩ := exists_env all
        rw [(readable after).1 env values, value env values]
    · rw [nothing]
      by_cases after : e'.Readable
      · exact (readable after).2.mpr (unbound.mp nothing)
      · exact value?_of_not_readable known after

/-- A product of two tokens without blanks. -/
def pairFormula (t u : Token) : Formula where
  signs := []
  first := ⟨⟨.none, t, .none⟩, [⟨.none, u, .none⟩]⟩
  rest := []

def two : Token :=
  .numeral "2".toList 2 (.decimal ⟨[2], by decide, by decide, by decide, rfl⟩) (by simp [isQuote])

def sixtyFive : Token :=
  .numeral "65".toList 65 (.decimal ⟨[6, 5], by decide, by decide, by decide, rfl⟩)
    (by simp [isQuote])

def capitalA : Token := .character '\'' 'A' rfl

theorem respelled_later : (pairFormula two sixtyFive).Respelled (pairFormula two capitalA) where
  signs := rfl
  first := ⟨⟨rfl, .same _, rfl⟩, .cons ⟨rfl, .character _ _ _ rfl, rfl⟩ .nil⟩
  rest := .nil

theorem respelled_first : (pairFormula sixtyFive two).Respelled (pairFormula capitalA two) where
  signs := rfl
  first := ⟨⟨rfl, .character _ _ _ rfl, rfl⟩, .cons ⟨rfl, .same _, rfl⟩ .nil⟩
  rest := .nil

theorem value?_respelled_pair :
    (Expr.read "2*'A'".toList).value? { symbols := ∅ } = some 130 ∧
      (Expr.read "'A'*2".toList).value? { symbols := ∅ } = none := by
  have known : KnowsIdentifiers (Expr.Scope.value? { symbols := ∅ }) :=
    fun _ _ _ _ value => nomatch value
  refine ⟨?later, ?first⟩
  case later =>
      obtain ⟨value, -, -, places⟩ := value?_respelled known respelled_later
      have placed : (pairFormula two capitalA).Readable := by
        refine (places (by decide)).mpr (List.forall_mem_singleton.mpr ⟨fun _ => rfl, ?_⟩)
        exact List.forall_mem_singleton.mpr (by decide)
      exact (value placed).1 (fun _ => 0) (by decide)
  case first =>
      obtain ⟨-, nothing, -, places⟩ := value?_respelled known respelled_first
      refine nothing fun readable => ?_
      have misplaced := ((places (by decide)).mp readable _ List.mem_cons_self).1 (by decide)
      cases misplaced

/-- A character cannot stand where its code can. -/
theorem respelled_changes_value : ∃ e e' : Formula, e.Respelled e' ∧
    e.text = "65*2".toList ∧ e'.text = "'A'*2".toList ∧
    (Expr.read e.text).value? { symbols := ∅ } = some 130 ∧
    (Expr.read e'.text).value? { symbols := ∅ } = none := by
  exact ⟨pairFormula sixtyFive two, pairFormula capitalA two, respelled_first, by decide, by decide,
    by decide +kernel, by decide +kernel⟩

end Z80Workbench.Formula
