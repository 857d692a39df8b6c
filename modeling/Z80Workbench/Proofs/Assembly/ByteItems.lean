import Z80Workbench.Proofs.Assembly.Yield
import Z80Workbench.Proofs.Expr.Growth
import Z80Workbench.Proofs.Expr.Literal

/-!
# Z80Workbench.Proofs.Assembly.ByteItems

The items of a byte directive.  An item is a value or a quoted string, and the line is made of the
items one by one, when its space is reserved as well as when its bytes are stored.

What counts as a quoted string is told from the first and the last character alone.  Between two
equal marks there may be a whole expression, of which one character literal is the beginning and
another one the end: `'C'-'@'` has the value 3, and takes five bytes.  All other values take one.
-/

namespace Z80Workbench

open Text
open Z80Workbench.Expr (isQuote KnowsIdentifiers)

namespace Source

/-- The token is the characters between two equal quotation marks. -/
def Frames (q : Char) (cs token : List Char) : Prop :=
  isQuote q = true ∧ token = q :: (cs ++ [q])

variable {q : Char} {cs token : List Char}

/-- A quoted text is what stands between two equal marks, whatever it holds. -/
theorem quotedText?_eq_some_iff : quotedText? token = some cs ↔ ∃ q, Frames q cs token := by
  cases token with
  | nil => exact iff_of_false nofun fun ⟨_, _, h⟩ => nomatch h
  | cons opening rest =>
      rw [quotedText?]
      constructor
      · intro h
        split at h
        case isTrue framed =>
            rw [Bool.and_eq_true, decide_eq_true_eq] at framed
            cases h
            exact ⟨opening, framed.1, by rw [List.dropLast_append_getLast? _ framed.2]⟩
        case isFalse => contradiction
      · rintro ⟨q, hq, he⟩
        obtain ⟨rfl, rfl⟩ := List.cons_eq_cons.mp he
        simp [hq]

/-- A token that is no quoted text has no two equal marks around it. -/
theorem quotedText?_eq_none_iff : quotedText? token = none ↔ ¬∃ q cs, Frames q cs token := by
  rw [Option.eq_none_iff_forall_ne_some, ← not_iff_not, not_not]
  simp only [ne_eq, not_forall, not_not, quotedText?_eq_some_iff]
  exact exists_comm

end Source

namespace Expr

open Source (Frames)

variable {q : Char} {cs token : List Char}

/-- Between two equal marks, only a single character is a literal. -/
theorem literal?_of_frames (h : Frames q cs token) :
    literal? token = if cs.length = 1 then cs.head?.map Char.toNat else none := by
  have numeral : numeral? (upper token) = none := by
    obtain ⟨hq, rfl⟩ := h
    rw [upper_cons, upperChar_of_sign (sign_of_isQuote hq)]
    exact numeral?_quote hq _
  have character : character? token = if cs.length = 1 then cs.head?.map Char.toNat else none := by
    obtain ⟨hq, rfl⟩ := h
    match cs with
    | [] => rfl
    | [c] => simp [character?, hq]
    | c :: d :: rest => simp [character?]
  obtain ⟨hq, rfl⟩ := h
  rw [literal?, trim_quoted hq, numeral, character, Option.or_none]

/-- A quoted string that is closed by its last character is one piece of a sum. -/
theorem pieces_closed (negative : Bool) (h : q ∉ cs) :
    pieces (some q) negative (cs ++ [q]) = [⟨negative, cs ++ [q]⟩] := by
  induction cs with
  | nil => simp [pieces, Piece.push]
  | cons c rest ih =>
      have other : c ≠ q := fun he => h (he ▸ List.mem_cons_self)
      rw [List.cons_append, pieces, if_neg other, ih fun hm => h (List.mem_cons_of_mem c hm)]
      rfl

/-- Where names are identifiers, a quoted string has a value only if it is a single character. -/
theorem value?_of_closed {scope : Scope} (known : KnowsIdentifiers scope.value?)
    (h : Frames q cs token) (closed : q ∉ cs) (more : cs.length ≠ 1) :
    (read token).value? scope = none := by
  have noLiteral : literal? token = none := by rw [literal?_of_frames h, if_neg more]
  have atom : (Atom.read token).value? scope = none := by
    cases ha : Atom.read token with
    | number n =>
        rw [Atom.read, noLiteral] at ha
        dsimp only at ha
        split at ha <;> contradiction
    | blank => rfl
    | name text =>
        rw [Atom.value?, Option.eq_none_iff_forall_ne_some]
        intro value hv
        have identifier := known ha hv
        rw [Atom.toList_of_read ha] at identifier
        obtain ⟨hq, rfl⟩ := h
        refine not_mem_of_isIdentifier identifier ?_ List.mem_cons_self
        simp only [isQuote, Bool.or_eq_true, decide_eq_true_eq] at hq
        rcases hq with rfl | rfl <;> decide
  have sum : (read token).terms = some [⟨false, [Atom.read token]⟩] := by
    have one : pieces none false token = [⟨false, token⟩] := by
      obtain ⟨hq, rfl⟩ := h
      simp [pieces, hq, pieces_closed false closed, Piece.push]
    obtain ⟨hq, rfl⟩ := h
    simp [read, one, termsOf, trim_quoted hq, Piece.term, factors, hq]
  have whole : (read token).whole.value? scope = none := atom
  simp [value?, whole, sum, Term.sum?, Term.value?, Term.product?, atom]

end Expr

namespace Image

open Source (Frames splitData quotedText? quotedText?_eq_some_iff quotedText?_eq_none_iff)

variable {scope : Expr.Scope} {token : List Char}

/-- What stands between two equal marks is stored character by character. -/
theorem byteItem_of_frames {q : Char} {cs : List Char} (h : Frames q cs token) :
    byteItem scope token = cs.map fun c => some (lowByte c.toNat) := by
  rw [byteItem, quotedText?_eq_some_iff.mpr ⟨q, h⟩]

/-- Anything else is stored as one value. -/
theorem byteItem_of_plain (h : ¬∃ q cs, Frames q cs token) :
    byteItem scope token = [((Expr.read token).value? scope).map lowByte] := by
  rw [byteItem, quotedText?_eq_none_iff.mpr h]

/-- A value is stored as its low byte unless it stands between equal marks, with more or less than
one character between them. -/
theorem byteItem_eq_lowByte_iff {v : Nat} (hv : (Expr.read token).value? scope = some v) :
    byteItem scope token = [some (lowByte v)] ↔ ∀ q cs, Frames q cs token → cs.length = 1 := by
  constructor
  · intro h q cs framed
    have length := congrArg List.length h
    rwa [byteItem_of_frames framed, List.length_map] at length
  · intro h
    by_cases framed : ∃ q cs, Frames q cs token
    · obtain ⟨q, cs, framed⟩ := framed
      have one := h q cs framed
      obtain ⟨c, rfl⟩ := List.length_eq_one_iff.mp one
      have literal : Expr.literal? token = some c.toNat := by
        rw [Expr.literal?_of_frames framed, if_pos one]
        rfl
      have value : word (c.toNat : Int) = v := by
        simpa [Expr.value?, Expr.read, Expr.Atom.read, literal, Expr.Atom.value?] using hv
      have low : lowByte c.toNat = lowByte v := by
        rw [← value]
        unfold lowByte word
        omega
      rw [byteItem_of_frames framed, List.map_singleton, low]
    · rw [byteItem_of_plain framed, hv, Option.map_some]

theorem byteItemsSize_append (front back : List (List Char)) :
    byteItemsSize (front ++ back) = byteItemsSize front + byteItemsSize back := by
  induction front with
  | nil => exact (Nat.zero_add _).symm
  | cons token rest ih => rw [List.cons_append, byteItemsSize, byteItemsSize, ih, Nat.add_assoc]

variable {line : SourceLine} {d : Directive} {front back : List (List Char)}

/-- **Items of byte directives.**  A line is made of its items in both passes: its size is the sum
of theirs, and its bytes are theirs in a row.  An item that has a value reserves one byte and stores
the low byte of the value, exactly if it does not stand between two equal quotation marks with more
or less than one character between them.  What stands between two equal marks is stored character
by character, and anything else as one value or gap.  Where names are identifiers, a quoted string
that is closed by its last character only has no value but that of a single character, so that no
value takes several bytes but one whose first mark is closed earlier. -/
theorem ofPlacement_byteItem (operation : line.operation = some (.directive d))
    (stores : d.storesBytes = true) (items : splitData line.args.toList = front ++ token :: back) :
    (∀ scope counter, (Extent.ofLine scope counter line).size =
      byteItemsSize front + byteItemSize token + byteItemsSize back) ∧
    (∀ setting address size,
      (ofPlacement setting ⟨line, some address, size⟩).emission =
        some ⟨.bytes, front.flatMap (byteItem setting.scope) ++ byteItem setting.scope token ++
          back.flatMap (byteItem setting.scope)⟩ ∧
      (front.flatMap (byteItem setting.scope)).length = byteItemsSize front) ∧
    (∀ scope v, (Expr.read token).value? scope = some v →
      (byteItemSize token = 1 ∧ byteItem scope token = [some (lowByte v)] ↔
        ∀ q cs, Frames q cs token → cs.length = 1)) ∧
    (∀ scope q cs, Frames q cs token →
      byteItem scope token = (cs.map fun c => some (lowByte c.toNat)) ∧
        byteItemSize token = cs.length) ∧
    (∀ scope, (¬∃ q cs, Frames q cs token) →
      byteItem scope token = [((Expr.read token).value? scope).map lowByte] ∧
        byteItemSize token = 1) ∧
    ∀ scope : Expr.Scope, KnowsIdentifiers scope.value? → ∀ q cs, Frames q cs token → q ∉ cs →
      cs.length ≠ 1 → (Expr.read token).value? scope = none := by
  refine ⟨fun scope counter => ?size, fun setting address size => ⟨?slots, ?front⟩,
    fun scope v hv => ?value, fun scope q cs framed => ?framed, fun scope plain => ?plain,
    fun scope known q cs framed closed more => Expr.value?_of_closed known framed closed more⟩
  case size =>
      have size : d.size scope.symbols line.args.toList = byteItemsSize (front ++ token :: back) := by
        rw [Directive.size, if_pos stores, items]
      rw [byteItemsSize_append, byteItemsSize, ← Nat.add_assoc] at size
      rw [← size, Extent.ofLine, operation]
      cases d <;> rfl
  case slots => simp [ofPlacement, operation, stores, ofBytes, items]
  case front => exact length_byteItems _ _
  case value =>
      rw [← byteItem_eq_lowByte_iff hv, and_iff_right_iff_imp]
      intro stored
      rw [← length_byteItem scope, stored, List.length_singleton]
  case framed =>
      have stored : byteItem scope token = _ := byteItem_of_frames framed
      refine ⟨stored, ?_⟩
      rw [← length_byteItem scope, stored, List.length_map]
  case plain =>
      have stored : byteItem scope token = _ := byteItem_of_plain plain
      refine ⟨stored, ?_⟩
      rw [← length_byteItem scope, stored, List.length_singleton]

/-- An expression between a number and a string. -/
theorem ofPlacement_byteItem_offset :
    let line : SourceLine := ⟨1, "DB 1,'A'+1,\"AB\"", [], some (.directive .db), "1,'A'+1,\"AB\""⟩
    (Extent.ofLine { symbols := ∅ } 0 line).size = 4 ∧
      byteItemSize "'A'+1".toList = 1 ∧
        byteItem { symbols := ∅ } "'A'+1".toList = [some 66] := by
  intro line
  obtain ⟨size, -, value, -⟩ := @ofPlacement_byteItem "'A'+1".toList line .db ["1".toList]
    ["\"AB\"".toList] (by decide) (by decide) (by decide +kernel)
  have plain : quotedText? "'A'+1".toList = none := by decide
  refine ⟨(size _ 0).trans (by decide), (value _ 66 (by decide +kernel)).mpr ?_⟩
  exact fun q cs framed => absurd ⟨q, cs, framed⟩ (quotedText?_eq_none_iff.mp plain)

/-- The difference of two characters has the value 3, which a word directive stores.  A byte
directive takes it for a string of five characters. -/
theorem ofPlacement_byteItem_spread :
    let token := "'C'-'@'".toList
    let scope : Expr.Scope := { symbols := ∅ }
    let line : SourceLine := ⟨1, "DB 'C'-'@'", [], some (.directive .db), "'C'-'@'"⟩
    splitData token = [token] ∧ (Expr.read token).value? scope = some 3 ∧
      (ofWords ⟨scope, ""⟩ line).emission = some ⟨.words, [some 3, some 0]⟩ ∧
      (Extent.ofLine scope 0 line).size = 5 ∧
      (ofPlacement ⟨scope, ""⟩ ⟨line, some 0, 5⟩).emission =
        some ⟨.bytes, [some 0x43, some 0x27, some 0x2D, some 0x27, some 0x40]⟩ := by
  decide +kernel

end Image

end Z80Workbench
