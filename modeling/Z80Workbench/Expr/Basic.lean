import Z80Workbench.Expr.Literal
import Z80Workbench.Expr.Scope
import Z80Workbench.Text.Split
import Z80Workbench.Word

/-!
# Z80Workbench.Expr.Basic

Operand expressions: sums and differences of products of literals and names, wrapped to a word.

```
expression  =  sign* term ((+ | -) term)*
term        =  factor (* factor)*
factor      =  literal | name
```

An expression is read once into its parts and evaluated against a scope as often as needed.
The whole text is tried as one literal or name first, which also lets a character literal hold
an operator. No parentheses are known, and a sign that follows an operator is refused.
-/

namespace Z80Workbench.Expr

open Text

/-- A literal, a name in capital letters, or nothing at all. -/
inductive Atom where
  | number (value : Nat)
  | name (text : String)
  | blank
  deriving Repr, DecidableEq

namespace Atom

/-- Reads one literal or name. -/
def read (text : List Char) : Atom :=
  match literal? text with
  | some n => number n
  | none =>
    match upper (trim text) with
    | [] => blank
    | cs => name (String.ofList cs)

/-- The value of a literal or name; literals come first, so a symbol never hides a number. -/
def value? (scope : Scope) : Atom → Option Int
  | number n => some n
  | name text => scope.value? text
  | blank => none

end Atom

/-- A product with a sign. -/
structure Term where
  negative : Bool
  factors : List Atom
  deriving Repr, DecidableEq

namespace Term

/-- The product of the values of some factors, if each has one. -/
def product? (scope : Scope) : List Atom → Option Int
  | [] => some 1
  | a :: rest => do return (← a.value? scope) * (← product? scope rest)

/-- The value of a term. -/
def value? (scope : Scope) (t : Term) : Option Int :=
  (product? scope t.factors).map fun n => if t.negative then -n else n

/-- The sum of the values of some terms, if each has one. -/
def sum? (scope : Scope) : List Term → Option Int
  | [] => some 0
  | t :: rest => do return (← t.value? scope) + (← sum? scope rest)

end Term

/-! ## Reading a sum -/

/-- A piece of a text between signs, and whether a minus stands in front of it. -/
structure Piece where
  negative : Bool
  text : List Char

/-- Puts a character in front of the first of some pieces. -/
def Piece.push (c : Char) : List Piece → List Piece
  | [] => [⟨false, [c]⟩]
  | piece :: rest => { piece with text := c :: piece.text } :: rest

/-- Splits a text at the signs outside quotes. `quote` is the mark that the text starts inside
of, if any, and `negative` says which sign stands in front of it. -/
def pieces (quote : Option Char) (negative : Bool) : List Char → List Piece
  | [] => [⟨negative, []⟩]
  | c :: rest =>
    match quote with
    | some q => Piece.push c (pieces (if c = q then none else some q) negative rest)
    | none =>
      if isQuote c then Piece.push c (pieces (some c) negative rest)
      else if c = '+' ∨ c = '-' then ⟨negative, []⟩ :: pieces none (c = '-') rest
      else Piece.push c (pieces none negative rest)

/-- Reads a product. A text that starts with a quotation mark is one factor. -/
def factors (text : List Char) : List Atom :=
  if text.contains '*' && !(text.head?.any isQuote) then (splitAt '*' text).map Atom.read
  else [Atom.read text]

/-- Reads a term. -/
def Piece.term (piece : Piece) : Term :=
  ⟨piece.negative, factors (trim piece.text)⟩

/-- Reads the terms of a sum: empty pieces in front are further signs of the first term, and
an empty piece later on is a missing operand. -/
def termsOf (negative : Bool) : List Piece → Option (List Term)
  | [] => none
  | piece :: rest =>
    if trim piece.text = [] then termsOf (negative ^^ piece.negative) rest
    else if rest.all (trim ·.text ≠ []) then
      some ({ piece with negative := negative ^^ piece.negative }.term :: rest.map Piece.term)
    else none

end Expr

/-! ## Expressions -/

/-- An operand expression: its text, its reading as one literal or name, and its reading as a
sum. -/
structure Expr where
  text : String
  whole : Expr.Atom
  terms : Option (List Expr.Term)
  deriving Repr, DecidableEq

namespace Expr

/-- Reads an expression. -/
def read (text : List Char) : Expr where
  text := String.ofList text
  whole := Atom.read text
  terms := termsOf false (pieces none false text)

/-- The expression that a string holds. -/
def ofString (s : String) : Expr := read s.toList

/-- The value of an expression, wrapped to a word, if every name in it has one. -/
def value? (scope : Scope) (e : Expr) : Option Nat :=
  match e.whole.value? scope with
  | some n => some (word n)
  | none => (e.terms.bind (Term.sum? scope)).map word

/-- The value of an expression is a word. -/
theorem value?_lt {scope : Scope} {e : Expr} {n : Nat} (h : e.value? scope = some n) :
    n < 65536 := by
  unfold value? at h
  split at h
  · cases h; exact word_lt _
  · obtain ⟨m, _, rfl⟩ := Option.map_eq_some_iff.1 h
    exact word_lt _

end Expr

end Z80Workbench
