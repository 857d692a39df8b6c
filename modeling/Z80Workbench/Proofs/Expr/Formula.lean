import Z80Workbench.Proofs.Expr.Pieces

/-!
# Z80Workbench.Proofs.Expr.Formula

The arithmetic of expressions.  A `Formula` is an expression as it is meant: leading signs, and sums
and differences of products of literals and names, with blanks anywhere between them.  Its text is
read back as this arithmetic where no quotation mark gets into the way: the sum is cut at its signs,
each product at its stars, and what the whole text is tried as first, one literal or name, is no
other value.
-/

namespace Z80Workbench

open Text
open Z80Workbench.Expr (Denotes Atom Term Piece isQuote KnowsIdentifiers operators scan)
open Source (isIdentifier startsLabel continuesLabel)

/-! ## formulas -/

namespace Formula

/-- White space between tokens. -/
abbrev Blanks := { cs : List Char // ∀ c ∈ cs, isBlank c = true }

def Blanks.none : Blanks := ⟨[], nofun⟩

def Blanks.space : Blanks := ⟨[' '], List.forall_mem_singleton.mpr rfl⟩

theorem Blanks.scan (gap : Blanks) {quote : Option Char} (quoted : ∀ q ∈ quote, isQuote q = true) :
    scan quote gap.val = some quote :=
  Expr.scan_of_plain (fun c hc => Expr.isMark_of_isBlank (gap.property c hc)) quoted

/-- A literal or a name as it is written: a numeral is a literal without quotation marks, and a name
is an identifier that is no literal. -/
inductive Token where
  | numeral (text : List Char) (n : Nat) (denotes : Denotes text n)
      (plain : ∀ c ∈ text, isQuote c = false)
  | character (mark c : Char) (quotes : isQuote mark = true)
  | name (text : List Char) (identifier : isIdentifier text = true)
      (ascii : ∀ c ∈ text, c.toNat < 128) (other : ∀ n, ¬Denotes text n)

namespace Token

def text : Token → List Char
  | numeral text _ _ _ => text
  | character mark c _ => [mark, c, mark]
  | name text _ _ _ => text

/-- The value of a token where names have the given values. -/
def value (env : String → Int) : Token → Int
  | numeral _ n _ _ => n
  | character _ c _ => c.toNat
  | name text _ _ _ => env (String.ofList (upper text))

/-- The name that is looked up, in capital letters. -/
def name? : Token → Option String
  | name text _ _ _ => some (String.ofList (upper text))
  | numeral .. | character .. => none

/-- The character of a character literal. -/
def character? : Token → Option Char
  | character _ c _ => some c
  | numeral .. | name .. => none

/-- The character is the quotation mark around it. -/
def holdsMark : Token → Bool
  | character mark c _ => c = mark
  | numeral .. | name .. => false

/-- What the token is read as. -/
def atom : Token → Atom
  | numeral _ n _ _ => .number n
  | character _ c _ => .number c.toNat
  | name text _ _ _ => .name (String.ofList (upper text))

end Token

/-- A token with the blanks around it. -/
structure Factor where
  lead : Blanks
  token : Token
  trail : Blanks

def Factor.text (f : Factor) : List Char := f.lead.val ++ f.token.text ++ f.trail.val

/-- Factors with a star in front of each. -/
def laterText (fs : List Factor) : List Char := fs.flatMap fun f => '*' :: f.text

@[simp] theorem laterText_nil : laterText [] = [] := rfl

@[simp] theorem laterText_cons (f : Factor) (fs : List Factor) :
    laterText (f :: fs) = '*' :: (f.text ++ laterText fs) := rfl

/-- Factors with stars between them. -/
structure Product where
  first : Factor
  rest : List Factor

namespace Product

def factors (p : Product) : List Factor := p.first :: p.rest

def text (p : Product) : List Char := p.first.text ++ laterText p.rest

def value (env : String → Int) (p : Product) : Int :=
  p.rest.foldl (fun v f => v * f.token.value env) (p.first.token.value env)

def atoms (p : Product) : List Atom := p.factors.map (·.token.atom)

end Product

/-- A leading sign with the blanks in front of it. -/
structure Sign where
  lead : Blanks
  negative : Bool

def signChar (negative : Bool) : Char := if negative then '-' else '+'

def Sign.text (s : Sign) : List Char := s.lead.val ++ [signChar s.negative]

def Sign.value (s : Sign) : Int := if s.negative then -1 else 1

end Formula

open Formula (Token Factor Product Sign Blanks signChar)

/-- Leading signs, a first product, and further products with the signs in front of them. -/
structure Formula where
  signs : List Sign
  first : Product
  rest : List (Bool × Product)

namespace Formula

/-- The text of products with signs between them. -/
def sumText (first : Product) (rest : List (Bool × Product)) : List Char :=
  first.text ++ rest.flatMap fun t => signChar t.1 :: t.2.text

def text (e : Formula) : List Char := e.signs.flatMap Sign.text ++ sumText e.first e.rest

def products (e : Formula) : List Product := e.first :: e.rest.map Prod.snd

def tokens (e : Formula) : List Token := e.products.flatMap fun p => p.factors.map (·.token)

def names (e : Formula) : List String := e.tokens.filterMap Token.name?

/-- The leading signs are multiplied with the first product, and the further products are added or
subtracted from left to right. -/
def value (env : String → Int) (e : Formula) : Int :=
  e.rest.foldl (fun v t => if t.1 then v - t.2.value env else v + t.2.value env)
    ((e.signs.map Sign.value).prod * e.first.value env)

/-! ## tokens are read -/

namespace Token

theorem operator_not_mem_of_isIdentifier {text : List Char} (h : isIdentifier text = true)
    {c : Char} (hc : c ∈ operators) : c ∉ text := by
  intro hm
  obtain ⟨-, -, hs, hk⟩ := Expr.operator_plain c hc
  have label := Expr.startsLabel_or_continuesLabel h hm
  rw [hs, hk] at label
  exact label.elim Bool.false_ne_true Bool.false_ne_true

theorem isBlank_of_isIdentifier {text : List Char} (h : isIdentifier text = true)
    (ascii : ∀ c ∈ text, c.toNat < 128) : ∀ c ∈ text, isBlank c = false := by
  intro c hc
  have row : startsLabel c = true ∨ continuesLabel c = true → isBlank c = false :=
    forall_ascii (P := fun c => startsLabel c = true ∨ continuesLabel c = true → isBlank c = false)
      (by decide +kernel) (ascii c hc)
  exact row (Expr.startsLabel_or_continuesLabel h hc)

variable (t : Token)

/-- Only a character literal holds an operator. -/
theorem operator_not_mem (h : t.character? = none) {c : Char} (hc : c ∈ operators) :
    c ∉ t.text := by
  cases t with
  | numeral text n denotes plain =>
      obtain ⟨q, c, hq, rfl, -⟩ | read := denotes.numeral?
      · have noQuote := plain q List.mem_cons_self
        rw [hq] at noQuote
        contradiction
      · exact Expr.not_mem_of_numeral? read hc
  | character mark c quotes => cases h
  | name text identifier ascii other => exact operator_not_mem_of_isIdentifier identifier hc

theorem isMark_of_mem (h : t.character? = none) : ∀ c ∈ t.text, Expr.isMark c = false := by
  intro c hc
  rw [← Bool.not_eq_true]
  exact fun mark => t.operator_not_mem h (Expr.mem_operators_of_isMark mark) hc

theorem trim_text : trim t.text = t.text := by
  cases t with
  | numeral text n denotes plain => exact denotes.trim_eq
  | character mark c quotes => exact Expr.trim_quoted quotes [c]
  | name text identifier ascii other =>
      exact trim_of_plain (isBlank_of_isIdentifier identifier ascii)

theorem read_text : Atom.read t.text = t.atom := by
  have literal {text : List Char} {n : Nat} (denotes : Denotes text n) :
      Atom.read text = .number n := by
    have reads : Expr.literal? text = some n :=
      Expr.literal?_of_denotes (denotes.trim_eq.symm ▸ denotes)
    rw [Atom.read, reads]
  cases t with
  | numeral text n denotes plain => exact literal denotes
  | character mark c quotes => exact literal (.character quotes)
  | name text identifier ascii other =>
      have trimmed : trim text = text := trim_of_plain (isBlank_of_isIdentifier identifier ascii)
      have noLiteral : Expr.literal? text = none := by
        rw [Option.eq_none_iff_forall_ne_some]
        intro n hn
        exact other n (trimmed ▸ Expr.denotes_of_literal? ascii hn)
      show Atom.read text = .name (String.ofList (upper text))
      rw [Atom.read, noLiteral, trimmed]
      dsimp only
      split
      case h_1 empty =>
          rw [Expr.upper_eq_nil_iff.mp empty] at identifier
          contradiction
      case h_2 => rfl

/-- A token starts with a quotation mark if it is a character literal, and never with a blank. -/
theorem exists_head : ∃ c rest, t.text = c :: rest ∧ isBlank c = false ∧
    isQuote c = t.character?.isSome := by
  cases ht : t.text with
  | nil =>
      have nothing := t.read_text
      rw [ht] at nothing
      cases t <;> cases nothing
  | cons c rest =>
      refine ⟨c, rest, rfl, ?blank, ?quote⟩
      case blank =>
          have trimmed := t.trim_text
          rw [ht] at trimmed
          rw [← Bool.not_eq_true]
          intro blank
          have start := congrArg trimStart trimmed
          rw [trimStart_trim, trimmed, trimStart, List.dropWhile_cons_of_pos blank] at start
          have short := (List.dropWhile_suffix isBlank (l := rest)).length_le
          rw [← start, List.length_cons] at short
          omega
      case quote =>
          cases character : t.character? with
          | none =>
              have absent (q : Char) (hq : q ∈ operators) : q ∉ c :: rest :=
                ht ▸ t.operator_not_mem character hq
              rw [Option.isSome_none, isQuote, Bool.or_eq_false_iff, decide_eq_false_iff_not,
                decide_eq_false_iff_not]
              exact ⟨fun he => absent c (by rw [he]; decide) List.mem_cons_self,
                fun he => absent c (by rw [he]; decide) List.mem_cons_self⟩
          | some d =>
              cases t with
              | character mark d quotes =>
                  obtain ⟨rfl, -⟩ := List.cons_eq_cons.mp ht
                  exact quotes
              | numeral | name => cases character

end Token

/-! ## products are read -/

namespace Factor

variable (f : Factor)

theorem read_text : Atom.read f.text = f.token.atom := by
  rw [text, Expr.Atom.read_congr (trim_around f.lead.property f.trail.property _),
    f.token.read_text]

/-- No star stands in a factor unless it is the star between quotation marks. -/
theorem star_not_mem (h : f.token.character? ≠ some '*') : '*' ∉ f.text := by
  have token : '*' ∉ f.token.text := by
    cases ht : f.token with
    | character mark c quotes =>
        have mark : '*' ≠ mark := by
          rintro rfl
          exact absurd quotes (by decide)
        have other : '*' ≠ c := by
          rintro rfl
          exact h (by rw [ht]; rfl)
        simp [Token.text, mark, other]
    | numeral | name => exact Token.operator_not_mem _ rfl (by decide)
  rw [text, List.mem_append, List.mem_append, not_or, not_or]
  exact ⟨⟨Expr.star_not_mem_of_blank f.lead.property, token⟩,
    Expr.star_not_mem_of_blank f.trail.property⟩

/-- A text that starts with a factor starts with a quotation mark if the factor is a character. -/
theorem startsQuoted_iff (back : List Char) :
    Expr.StartsQuoted (f.text ++ back) ↔ f.token.character?.isSome = true := by
  obtain ⟨c, rest, head, plain, quote⟩ := f.token.exists_head
  rw [text, head, List.append_assoc, List.append_assoc, List.cons_append,
    Expr.startsQuoted_iff f.lead.property plain, quote]

/-- With an operator behind it, a factor is no character literal. -/
theorem not_isCharacter {back : List Char} {c : Char} (operator : c ∈ operators) (mem : c ∈ back) :
    ¬Expr.IsCharacter (f.text ++ back) := by
  intro character
  obtain ⟨q, rest, head, plain, quote⟩ := f.token.exists_head
  rw [text, head, List.append_assoc, List.append_assoc, List.cons_append] at character
  obtain ⟨quoted, d, blanks, behind, hb⟩ :=
    Expr.exists_of_isCharacter f.lead.property plain character
  rw [quote] at quoted
  cases ht : f.token with
  | numeral | name => rw [ht] at quoted; cases quoted
  | character mark d quotes =>
      -- the closing mark is that of the factor, and the operator is behind it
      rw [ht] at head
      obtain ⟨-, rfl⟩ := List.cons_eq_cons.mp head
      obtain ⟨-, closing⟩ := List.cons_eq_cons.mp behind
      have trail : f.trail.val ++ back = blanks := (List.cons_eq_cons.mp closing).2
      have blank := hb c (trail ▸ List.mem_append_right _ mem)
      rw [Expr.isBlank_of_operator operator] at blank
      contradiction

end Factor

namespace Product

variable (p : Product)

/-- No character literal is the first one of several factors, and none further on is a star. -/
def Placed : Prop :=
  (p.rest ≠ [] → p.first.token.character? = none) ∧
    ∀ f ∈ p.rest, f.token.character? ≠ some '*'

theorem splitAt_star {front : List Char} (hf : '*' ∉ front) {fs : List Factor}
    (h : ∀ f ∈ fs, f.token.character? ≠ some '*') :
    splitAt '*' (front ++ laterText fs) = front :: fs.map Factor.text := by
  induction fs generalizing front with
  | nil =>
      rw [laterText_nil, List.append_nil]
      exact Expr.splitAt_of_not_mem hf
  | cons f rest ih =>
      have star := f.star_not_mem (h f List.mem_cons_self)
      rw [laterText_cons, Expr.splitAt_separator, Expr.splitAt_of_not_mem hf,
        ih star fun g hg => h g (List.mem_cons_of_mem f hg)]
      rfl

/-- A product is read as its factors. -/
theorem factors_text (h : p.Placed) : Expr.factors (trim p.text) = p.atoms := by
  have read : p.factors.map (Atom.read ∘ Factor.text) = p.atoms :=
    List.map_congr_left fun f _ => f.read_text
  cases rest : p.rest with
  | nil =>
      have whole : p.text = p.first.text := by simp [text, rest]
      have one : '*' ∉ p.first.text ∨ Expr.StartsQuoted p.first.text := by
        cases character : p.first.token.character? with
        | none => exact .inl (p.first.star_not_mem (by rw [character]; exact nofun))
        | some c =>
            have quoted := (p.first.startsQuoted_iff []).mpr (by rw [character]; rfl)
            exact .inr (by rwa [List.append_nil] at quoted)
      rw [whole, Expr.factors_of_single one, p.first.read_text, atoms, factors, rest]
      rfl
  | cons f fs =>
      have character : p.first.token.character? = none := h.1 (by simp [rest])
      have star : '*' ∈ p.text := by simp [text, rest]
      have plain : ¬Expr.StartsQuoted p.text := by
        rw [text, p.first.startsQuoted_iff, character]
        decide
      have first : '*' ∉ p.first.text := p.first.star_not_mem (by rw [character]; exact nofun)
      rw [Expr.factors_of_star star plain, text, splitAt_star first h.2, ← List.map_cons,
        List.map_map, ← read]
      rfl

theorem trim_text_ne_nil : trim p.text ≠ [] := by
  obtain ⟨c, rest, head, plain, -⟩ := p.first.token.exists_head
  intro empty
  have blank := trim_eq_nil_iff.mp empty c (by simp [text, Factor.text, head])
  rw [plain] at blank
  contradiction

end Product

/-! ## quotation marks -/

theorem Token.holdsMark_of_plain {t : Token} (h : t.character? = none) : t.holdsMark = false := by
  cases t with
  | numeral | name => rfl
  | character mark c quotes => cases h

/-- A token that does not hold its own quotation mark leaves none open. -/
theorem Token.scan_text {t : Token} (h : t.holdsMark = false) : scan none t.text = some none := by
  cases character : t.character? with
  | none => exact Expr.scan_of_plain (t.isMark_of_mem character) Expr.quoted_none
  | some d =>
      cases t with
      | numeral | name => cases character
      | character mark c quotes =>
          have other : c ≠ mark := of_decide_eq_false h
          simp [text, scan, quotes, other]

theorem scan_star {quote : Option Char} (quoted : ∀ q ∈ quote, isQuote q = true)
    (text : List Char) : scan quote ('*' :: text) = scan quote text := by
  have star : scan quote ['*'] = some quote :=
    Expr.scan_of_plain (List.forall_mem_singleton.mpr (by decide)) quoted
  rw [← List.singleton_append, Expr.scan_append, star]
  rfl

/-- Blanks around a token do not matter. -/
theorem Factor.scan_text (f : Factor) {quote : Option Char}
    (quoted : ∀ q ∈ quote, isQuote q = true) : scan quote f.text = scan quote f.token.text := by
  have lead : scan quote f.lead.val = some quote := f.lead.scan quoted
  rw [text, Expr.scan_append, Expr.scan_append, lead, Option.bind_some]
  cases scanned : scan quote f.token.text with
  | none => rfl
  | some after => exact f.trail.scan (Expr.quoted_of_scan quoted scanned)

theorem Product.scan_text {p : Product} (h : ∀ f ∈ p.factors, f.token.holdsMark = false) :
    scan none p.text = some none := by
  have closed {f : Factor} (hf : f ∈ p.factors) : scan none f.text = some none := by
    rw [f.scan_text Expr.quoted_none, Token.scan_text (h f hf)]
  have later : ∀ fs ⊆ p.factors, scan none (laterText fs) = some none := by
    intro fs within
    induction fs with
    | nil => rfl
    | cons f rest ih =>
        obtain ⟨hf, others⟩ := List.cons_subset.mp within
        rw [laterText_cons, scan_star Expr.quoted_none, Expr.scan_append, closed hf,
          Option.bind_some, ih others]
  rw [text, Expr.scan_append, closed List.mem_cons_self, Option.bind_some,
    later p.rest (List.subset_cons_self _ _)]

/-! ## sums are read -/

theorem signChar_eq (negative : Bool) :
    (signChar negative = '+' ∨ signChar negative = '-') ∧
      decide (signChar negative = '-') = negative := by
  cases negative <;> decide

/-- The products of a sum are placed, and no quotation mark is left open in front of a sign. -/
def SumReadable : Product → List (Bool × Product) → Prop
  | p, [] => p.Placed ∧ (scan none p.text).isSome = true
  | p, (_, q) :: rest => p.Placed ∧ scan none p.text = some none ∧ SumReadable q rest

/-- A formula is taken apart where it was put together. -/
def Readable (e : Formula) : Prop := SumReadable e.first e.rest

theorem pieces_sum {p : Product} {rest : List (Bool × Product)} (h : SumReadable p rest)
    (negative : Bool) : Expr.pieces none negative (sumText p rest) =
      ⟨negative, p.text⟩ :: rest.map fun t => ⟨t.1, t.2.text⟩ := by
  induction rest generalizing p negative with
  | nil =>
      obtain ⟨after, scanned⟩ := Option.isSome_iff_exists.mp h.2
      rw [sumText, List.flatMap_nil, List.append_nil, Expr.pieces_of_end scanned]
      rfl
  | cons t rest ih =>
      obtain ⟨-, closed, others⟩ := h
      have sign := signChar_eq t.1
      rw [sumText, List.flatMap_cons, List.cons_append, Expr.pieces_of_sign closed sign.1, sign.2,
        List.map_cons]
      exact congrArg (List.cons _) (ih others t.1)

theorem SumReadable.placed {p : Product} {rest : List (Bool × Product)} (h : SumReadable p rest) :
    p.Placed ∧ ∀ t ∈ rest, t.2.Placed := by
  induction rest generalizing p with
  | nil => exact ⟨h.1, fun _ ht => absurd ht List.not_mem_nil⟩
  | cons t rest ih => exact ⟨h.1, List.forall_mem_cons.mpr (ih h.2.2)⟩

theorem mem_tokens {e : Formula} {p : Product} {f : Factor} (hp : p ∈ e.products)
    (hf : f ∈ p.factors) : f.token ∈ e.tokens :=
  List.mem_flatMap.mpr ⟨p, hp, List.mem_map_of_mem hf⟩

/-- Where no character is its own quotation mark, only the places of the characters count. -/
theorem readable_iff_placed {e : Formula} (h : ∀ t ∈ e.tokens, t.holdsMark = false) :
    e.Readable ↔ ∀ p ∈ e.products, p.Placed := by
  have closed : ∀ p ∈ e.products, scan none p.text = some none := fun p hp =>
    Product.scan_text fun f hf => h f.token (mem_tokens hp hf)
  have sum {p : Product} {rest : List (Bool × Product)}
      (closed : ∀ q ∈ p :: rest.map Prod.snd, scan none q.text = some none) :
      SumReadable p rest ↔ ∀ q ∈ p :: rest.map Prod.snd, q.Placed := by
    induction rest generalizing p with
    | nil => simp [SumReadable, closed p]
    | cons t rest ih =>
        obtain ⟨first, others⟩ := List.forall_mem_cons.mp closed
        rw [SumReadable, ih others, List.map_cons, List.forall_mem_cons]
        simp [first]
  exact sum closed

/-- The terms of a sum. -/
def sumTerms (negative : Bool) (first : Product) (rest : List (Bool × Product)) : List Term :=
  ⟨negative, first.atoms⟩ :: rest.map fun t => ⟨t.1, t.2.atoms⟩

theorem termsOf_sum {p : Product} {rest : List (Bool × Product)} (h : SumReadable p rest)
    (negative : Bool) : Expr.termsOf negative (Expr.pieces none false (sumText p rest)) =
      some (sumTerms negative p rest) := by
  have full : (rest.map fun t => (⟨t.1, t.2.text⟩ : Piece)).all (trim ·.text ≠ []) = true := by
    rw [List.all_map, List.all_eq_true]
    exact fun t _ => decide_eq_true t.2.trim_text_ne_nil
  obtain ⟨first, others⟩ := h.placed
  have terms : (rest.map fun t => (⟨t.1, t.2.text⟩ : Piece)).map Piece.term =
      rest.map fun t => ⟨t.1, t.2.atoms⟩ := by
    rw [List.map_map]
    refine List.map_congr_left fun t ht => ?_
    rw [Function.comp, Piece.term, t.2.factors_text (others t ht)]
  rw [pieces_sum h, Expr.termsOf, if_neg p.trim_text_ne_nil, if_pos full, terms, Piece.term,
    p.factors_text first, Bool.xor_false]
  rfl

/-- Whether the leading signs make a minus. -/
def parity (signs : List Sign) : Bool := signs.foldr (fun s b => s.negative ^^ b) false

theorem termsOf_signs (sign negative : Bool) (signs : List Sign) (text : List Char) :
    Expr.termsOf sign (Expr.pieces none negative (signs.flatMap Sign.text ++ text)) =
      Expr.termsOf (sign ^^ negative ^^ parity signs) (Expr.pieces none false text) := by
  induction signs generalizing sign negative with
  | nil =>
      rw [List.flatMap_nil, List.nil_append, Expr.termsOf_pieces]
      simp [parity]
  | cons s rest ih =>
      have closed : scan none s.lead.val = some none :=
        s.lead.scan Expr.quoted_none
      have missing : trim s.lead.val = [] := trim_eq_nil_iff.mpr s.lead.property
      have cut := Expr.pieces_of_sign closed (signChar_eq s.negative).1 negative
        (rest.flatMap Sign.text ++ text)
      have shape : (s :: rest).flatMap Sign.text ++ text =
          s.lead.val ++ signChar s.negative :: (rest.flatMap Sign.text ++ text) := by
        simp [Sign.text]
      rw [shape, cut, (signChar_eq s.negative).2, Expr.termsOf, if_pos missing, ih]
      simp [parity]

/-! ## what is tried first -/

/-- The text is more than one literal or name: it starts with a sign, or an operator stands behind
its first factor. -/
inductive Composite (text : List Char) : Prop
  | sign (s : Sign) (back : List Char) (h : text = s.text ++ back)
  | factor (f : Factor) (back : List Char) (h : text = f.text ++ back) (c : Char)
      (operator : c ∈ operators) (mem : c ∈ back)

/-- Such a text is no literal or name with a value. -/
theorem Composite.value?_eq_none {scope : Expr.Scope} (known : KnowsIdentifiers scope.value?)
    {text : List Char} (h : Composite text) : (Atom.read text).value? scope = none := by
  cases h with
  | sign s back h =>
      have operator : signChar s.negative ∈ operators := by cases s.negative <;> decide
      have mem : signChar s.negative ∈ text := by simp [h, Sign.text]
      refine Atom.value?_of_operator known operator mem fun character => ?_
      rw [h, Sign.text, List.append_assoc] at character
      obtain ⟨quote, -⟩ := Expr.exists_of_isCharacter s.lead.property
        (Expr.isBlank_of_operator operator) character
      cases hs : s.negative <;> rw [hs] at quote <;> exact absurd quote (by decide)
  | factor f back h c operator mem =>
      refine Atom.value?_of_operator known operator (h ▸ List.mem_append_right _ mem) ?_
      rw [h]
      exact f.not_isCharacter operator mem

theorem text_of_unsigned {e : Formula} (h : e.signs = []) : e.text = e.first.first.text ++
    (laterText e.first.rest ++ e.rest.flatMap fun t => signChar t.1 :: t.2.text) := by
  simp [text, h, sumText, Product.text]

/-- A formula of a single factor, or a composite text. -/
theorem single_or_composite (e : Formula) :
    (e.signs = [] ∧ e.first.rest = [] ∧ e.rest = []) ∨ Composite e.text := by
  cases signs : e.signs with
  | cons s rest =>
      refine .inr (.sign s (rest.flatMap Sign.text ++ sumText e.first e.rest) ?_)
      rw [text, signs, List.flatMap_cons, List.append_assoc]
  | nil =>
      have whole := text_of_unsigned signs
      cases product : e.first.rest with
      | cons f fs =>
          exact .inr (.factor e.first.first _ whole '*' (by decide) (by simp [product]))
      | nil =>
          cases sum : e.rest with
          | nil => exact .inl ⟨rfl, rfl, rfl⟩
          | cons t rest =>
              have operator : signChar t.1 ∈ operators := by cases t.1 <;> decide
              exact .inr (.factor e.first.first _ whole (signChar t.1) operator (by simp [sum]))

/-! ## values -/

variable {scope : Expr.Scope} {env : String → Int}

theorem Token.value?_atom {t : Token} (h : ∀ x ∈ t.name?, scope.value? x = some (env x)) :
    t.atom.value? scope = some (t.value env) := by
  cases t with
  | numeral | character => rfl
  | name text identifier ascii other => exact h _ rfl

theorem Token.value?_atom_of_unbound {t : Token} {x : String} (hx : x ∈ t.name?)
    (h : scope.value? x = none) : t.atom.value? scope = none := by
  cases t with
  | numeral | character => cases hx
  | name text identifier ascii other =>
      cases hx
      exact h

theorem foldl_mul (fs : List Factor) (v : Int) :
    fs.foldl (fun v f => v * f.token.value env) v = v * (fs.map (·.token.value env)).prod := by
  induction fs generalizing v with
  | nil => simp
  | cons f rest ih => rw [List.foldl_cons, ih, List.map_cons, List.prod_cons, Int.mul_assoc]

theorem product?_atoms {fs : List Factor}
    (h : ∀ f ∈ fs, f.token.atom.value? scope = some (f.token.value env)) :
    Term.product? scope (fs.map (·.token.atom)) = some (fs.map (·.token.value env)).prod := by
  induction fs with
  | nil => rfl
  | cons f rest ih =>
      rw [List.map_cons, Term.product?, h f List.mem_cons_self,
        ih fun g hg => h g (List.mem_cons_of_mem f hg)]
      rfl

theorem Product.product?_atoms {p : Product}
    (h : ∀ f ∈ p.factors, f.token.atom.value? scope = some (f.token.value env)) :
    Term.product? scope p.atoms = some (p.value env) := by
  rw [atoms, Formula.product?_atoms h, value, foldl_mul]
  rfl

/-- The value of a term with its sign. -/
def signed (env : String → Int) (t : Bool × Product) : Int :=
  if t.1 then -t.2.value env else t.2.value env

theorem foldl_signed (rest : List (Bool × Product)) (v : Int) :
    rest.foldl (fun v t => if t.1 then v - t.2.value env else v + t.2.value env) v =
      v + (rest.map (signed env)).sum := by
  induction rest generalizing v with
  | nil => simp
  | cons t rest ih =>
      have step : (if t.1 then v - t.2.value env else v + t.2.value env) = v + signed env t := by
        rw [signed]
        split <;> omega
      rw [List.foldl_cons, step, ih, List.map_cons, List.sum_cons, Int.add_assoc]

theorem prod_signs (signs : List Sign) :
    (signs.map Sign.value).prod = if parity signs then -1 else 1 := by
  induction signs with
  | nil => rfl
  | cons s rest ih =>
      have step : parity (s :: rest) = (s.negative ^^ parity rest) := rfl
      rw [List.map_cons, List.prod_cons, ih, step, Sign.value]
      cases s.negative <;> cases parity rest <;> rfl

theorem sum?_map {rest : List (Bool × Product)}
    (h : ∀ t ∈ rest, Term.product? scope t.2.atoms = some (t.2.value env)) :
    Term.sum? scope (rest.map fun t => ⟨t.1, t.2.atoms⟩) = some (rest.map (signed env)).sum := by
  induction rest with
  | nil => rfl
  | cons t rest ih =>
      rw [List.map_cons, Term.sum?, Term.value?, h t List.mem_cons_self,
        ih fun u hu => h u (List.mem_cons_of_mem t hu)]
      rfl

variable {e : Formula}

/-- The terms that a formula is read as. -/
def terms (e : Formula) : List Term := sumTerms (parity e.signs) e.first e.rest

theorem termsOf_text (h : e.Readable) :
    Expr.termsOf false (Expr.pieces none false e.text) = some e.terms := by
  rw [text, termsOf_signs, termsOf_sum h, Bool.xor_false, Bool.false_xor]
  rfl

/-- What is tried first makes no difference. -/
theorem value?_eq_sum? (known : KnowsIdentifiers scope.value?) (h : e.Readable) :
    (Expr.read e.text).value? scope = (Term.sum? scope e.terms).map word := by
  have read : (Atom.read e.text).value? scope = none →
      (Expr.read e.text).value? scope = (Term.sum? scope e.terms).map word := by
    intro whole
    rw [Expr.value?_of_whole whole, termsOf_text h]
    rfl
  obtain ⟨signs, factors, products⟩ | composite := e.single_or_composite
  · cases whole : (Atom.read e.text).value? scope with
    | none => exact read whole
    | some v =>
        have one : e.text = e.first.first.text := by
          simp [text, signs, sumText, Product.text, factors, products]
        have atom : e.first.first.token.atom.value? scope = some v := by
          rw [← Factor.read_text, ← one, whole]
        have sum : Term.sum? scope e.terms = some v := by
          simp [terms, sumTerms, signs, products, parity, Product.atoms, Product.factors, factors,
            Term.sum?, Term.value?, Term.product?, atom]
        rw [sum]
        simp only [Expr.value?, Expr.read, whole, Option.map_some]
  · exact read (composite.value?_eq_none known)

theorem sum?_terms (h : ∀ x ∈ e.names, scope.value? x = some (env x)) :
    Term.sum? scope e.terms = some (e.value env) := by
  have atoms {p : Product} (hp : p ∈ e.products) :
      Term.product? scope p.atoms = some (p.value env) := by
    refine Product.product?_atoms fun f hf => Token.value?_atom fun x hx => h x ?_
    exact List.mem_filterMap.mpr ⟨f.token, mem_tokens hp hf, hx⟩
  have others : ∀ t ∈ e.rest, Term.product? scope t.2.atoms = some (t.2.value env) :=
    fun t ht => atoms (List.mem_cons_of_mem _ (List.mem_map_of_mem ht))
  rw [terms, sumTerms, Term.sum?, Term.value?, atoms List.mem_cons_self, sum?_map others, value,
    foldl_signed, prod_signs]
  cases parity e.signs <;> simp

theorem sum?_terms_of_unbound {x : String} (hx : x ∈ e.names) (h : scope.value? x = none) :
    Term.sum? scope e.terms = none := by
  obtain ⟨token, ht, name⟩ := List.mem_filterMap.mp hx
  obtain ⟨p, hp, mapped⟩ := List.mem_flatMap.mp ht
  obtain ⟨f, hf, rfl⟩ := List.mem_map.mp mapped
  have unbound : Term.product? scope p.atoms = none :=
    Term.product?_of_mem (List.mem_map_of_mem hf) (Token.value?_atom_of_unbound name h)
  obtain ⟨negative, mem⟩ : ∃ negative, (⟨negative, p.atoms⟩ : Term) ∈ e.terms := by
    rcases List.mem_cons.mp hp with rfl | hp
    · exact ⟨_, List.mem_cons_self⟩
    · obtain ⟨t, ht, rfl⟩ := List.mem_map.mp hp
      exact ⟨t.1, List.mem_cons_of_mem _ (List.mem_map_of_mem ht)⟩
  exact Term.sum?_of_mem mem (by rw [Term.value?, unbound]; rfl)

/-- Names that all have a value have them from somewhere. -/
theorem exists_env {names : List String} (h : ¬∃ x ∈ names, scope.value? x = none) :
    ∃ env : String → Int, ∀ x ∈ names, scope.value? x = some (env x) := by
  refine ⟨fun x => (scope.value? x).getD 0, fun x hx => ?_⟩
  cases value : scope.value? x with
  | none => exact absurd ⟨x, hx, value⟩ h
  | some v => simp [value]

/-- A formula that is taken apart where it was put together has its arithmetic value, if every name
in it has one. -/
theorem value?_of_readable (known : KnowsIdentifiers scope.value?) (h : e.Readable) :
    (∀ env : String → Int, (∀ x ∈ e.names, scope.value? x = some (env x)) →
      (Expr.read e.text).value? scope = some (word (e.value env))) ∧
    ((Expr.read e.text).value? scope = none ↔ ∃ x ∈ e.names, scope.value? x = none) := by
  have bound (env : String → Int) (values : ∀ x ∈ e.names, scope.value? x = some (env x)) :
      (Expr.read e.text).value? scope = some (word (e.value env)) := by
    rw [value?_eq_sum? known h, sum?_terms values]
    rfl
  refine ⟨bound, fun none => ?_, fun ⟨x, hx, unbound⟩ => ?_⟩
  · by_contra all
    obtain ⟨env, values⟩ := exists_env all
    rw [bound env values] at none
    contradiction
  · rw [value?_eq_sum? known h, sum?_terms_of_unbound hx unbound]
    rfl

end Formula

end Z80Workbench
