import Z80Workbench.Fault
import Z80Workbench.Proofs.Except
import Z80Workbench.Proofs.Expr.LetterCase
import Z80Workbench.Proofs.Source.LabelLine

/-!
# Z80Workbench.Proofs.Fault

Texts are read without faults: a numeral or a product that is taken apart by its first character has
one, what is read as a number is a row of digits, a text whose first word is taken starts with it,
and a directive always has an operand.
-/

namespace Z80Workbench

open Text

/-- A list with a member has a first one. -/
theorem Fault.exists_first {α : Type} (fault : Fault) {xs : List α} (h : xs ≠ []) :
    ∃ x, xs.head? = some x ∧ fault.first xs = .ok x := by
  cases xs with
  | nil => exact absurd rfl h
  | cons x rest => exact ⟨x, rfl, rfl⟩

/-! ## expressions -/

namespace Expr

variable {base : Nat} {cs : List Char}

/-- Digits denote a number, and nothing else does. -/
theorem isSome_digitsFrom? (base acc : Nat) (cs : List Char) :
    (digitsFrom? base acc cs).isSome = cs.all (isDigitOf base) := by
  induction cs generalizing acc with
  | nil => rfl
  | cons c rest ih =>
      rw [digitsFrom?, List.all_cons, isDigitOf]
      cases digitValue? c with
      | none => rfl
      | some d =>
          rw [Option.any_some]
          dsimp only
          split
          case isTrue fits => rw [ih, decide_eq_true fits, Bool.true_and]
          case isFalse large => rw [decide_eq_false large]; rfl

theorem isSome_digits? (h : cs ≠ []) : (digits? base cs).isSome = cs.all (isDigitOf base) := by
  rw [digits?, if_neg h, isSome_digitsFrom?]

theorem digits?_eq_none (h : cs.all (isDigitOf base) = false) : digits? base cs = none := by
  have solid : cs ≠ [] := by rintro rfl; cases h
  rw [← Option.isNone_iff_eq_none, ← Option.not_isSome, isSome_digits? solid, h, Bool.not_false]

/-- A row of digits is read as the number that it denotes. -/
theorem checkedNumber_bind (h : cs ≠ []) (digits : cs.all (isDigitOf base) = true) :
    (do return some (← checkedNumber base cs) : Except Fault (Option Nat)) =
      .ok (digits? base cs) ∧ (digits? base cs).isSome := by
  obtain ⟨n, hn⟩ := Option.isSome_iff_exists.mp ((isSome_digits? h).trans digits)
  rw [checkedNumber, hn]
  exact ⟨rfl, rfl⟩

theorem checkedDigits?_eq (base : Nat) (cs : List Char) :
    checkedDigits? base cs = .ok (digits? base cs) := by
  unfold checkedDigits?
  split
  case isTrue row => exact (checkedNumber_bind row.1 row.2).1
  case isFalse other =>
      by_cases empty : cs = []
      · rw [empty]; rfl
      · rw [digits?_eq_none (Bool.eq_false_iff.mpr fun row => other ⟨empty, row⟩)]

/-- The mark of a binary numeral is told by the two characters in front. -/
theorem digitInitial?_eq (cs : List Char) : digitInitial? cs =
    if cs.getLast? = some 'H' then digits? 16 cs.dropLast
    else ((if cs.take 2 = ['0', 'B'] then digits? 2 (cs.drop 2) else none).or
      (if cs.getLast? = some 'B' then digits? 2 cs.dropLast else none)).or (digits? 10 cs) := by
  unfold digitInitial?
  split
  · rfl
  dsimp only
  split
  case h_1 => rfl
  case h_2 other =>
      have unmarked : cs.take 2 ≠ ['0', 'B'] := fun mark =>
        other (cs.drop 2) <| calc
          cs = cs.take 2 ++ cs.drop 2 := (List.take_append_drop 2 cs).symm
          _ = '0' :: 'B' :: cs.drop 2 := by rw [mark]; rfl
      rw [if_neg unmarked]

/-- What starts with a digit is not only the suffix of a binary numeral. -/
theorem dropLast_ne_nil {c : Char} {rest : List Char} (sign : isDigitSign c = true)
    (suffix : (c :: rest).getLast? = some 'B') : (c :: rest).dropLast ≠ [] := by
  cases rest with
  | nil =>
      obtain rfl : c = 'B' := Option.some.inj suffix
      exact absurd sign (by decide +kernel)
  | cons d more => exact List.cons_ne_nil c _

/-- A numeral that starts with a digit is read without faults. -/
theorem checkedDigitInitial?_eq {c : Char} (sign : isDigitSign c = true) (rest : List Char) :
    checkedDigitInitial? (c :: rest) = .ok (digitInitial? (c :: rest)) := by
  rw [digitInitial?_eq]
  unfold checkedDigitInitial?
  split
  · exact checkedDigits?_eq _ _
  split
  case isTrue marked =>
      have solid : (c :: rest).drop 2 ≠ [] :=
        mt List.drop_eq_nil_iff.mp (Nat.not_le.mpr marked.2.1)
      obtain ⟨found, number⟩ := checkedNumber_bind solid marked.2.2
      rw [found, if_pos marked.1, Option.or_of_isSome number, Option.or_of_isSome number]
  case isFalse plain =>
      have unmarked : (if (c :: rest).take 2 = ['0', 'B'] then digits? 2 ((c :: rest).drop 2)
          else none) = none := by
        split
        case isTrue mark =>
          by_cases short : (c :: rest).drop 2 = []
          · rw [short, digits?_nil]
          · have long := Nat.not_le.mp (mt List.drop_eq_nil_iff.mpr short)
            exact digits?_eq_none (Bool.eq_false_iff.mpr fun row => plain ⟨mark, long, row⟩)
        case isFalse => rfl
      rw [unmarked, Option.none_or]
      split
      case isTrue suffixed =>
          obtain ⟨found, number⟩ :=
            checkedNumber_bind (dropLast_ne_nil sign suffixed.1) suffixed.2
          rw [found, if_pos suffixed.1, Option.or_of_isSome number]
      case isFalse other =>
          have unsuffixed : (if (c :: rest).getLast? = some 'B' then
              digits? 2 (c :: rest).dropLast else none) = none := by
            split
            case isTrue last =>
              exact digits?_eq_none (Bool.eq_false_iff.mpr fun row => other ⟨last, row⟩)
            case isFalse => rfl
          rw [unsuffixed, Option.none_or, checkedDigits?_eq]

theorem checkedNumeral?_eq (h : cs ≠ []) : checkedNumeral? cs = .ok (numeral? cs) := by
  unfold numeral?
  split
  · exact absurd rfl h
  · exact checkedDigits?_eq _ _
  · exact checkedDigits?_eq _ _
  · exact checkedDigits?_eq _ _
  · exact checkedDigits?_eq _ _
  · exact checkedDigits?_eq _ _
  case h_7 c rest hex ampersand number dollar percent =>
      rw [checkedNumeral?]
      · simp only [Fault.first, bind, Except.bind, pure, Except.pure]
        rw [if_neg (not_or.mpr ⟨number, dollar⟩), if_neg percent]
        split
        case isTrue sign => exact checkedDigitInitial?_eq sign rest
        case isFalse => rfl
      · exact fun more same => hex more (List.cons.inj same).1 (List.cons.inj same).2
      · exact fun more same => ampersand more (List.cons.inj same).1 (List.cons.inj same).2

theorem checkedLiteral?_eq (text : List Char) : checkedLiteral? text = .ok (literal? text) := by
  unfold checkedLiteral? literal?
  dsimp only
  split
  case isTrue blank => rw [blank]; rfl
  case isFalse solid =>
      cases character? (trim text) with
      | some n => rfl
      | none =>
          rw [Option.none_or]
          exact checkedNumeral?_eq (mt upper_eq_nil_iff.mp solid)

theorem checkedAtom_eq (text : List Char) : checkedAtom text = .ok (Atom.read text) := by
  unfold checkedAtom Atom.read
  rw [checkedLiteral?_eq]
  cases literal? text with
  | some n => rfl
  | none =>
      simp only [bind, Except.bind]
      cases upper (trim text) <;> rfl

theorem checkedFactors_eq (text : List Char) : checkedFactors text = .ok (factors text) := by
  unfold checkedFactors factors
  cases text with
  | nil => rfl
  | cons c rest =>
      cases starred : (c :: rest).contains '*' with
      | false => simp [checkedAtom_eq, bind, Except.bind, pure, Except.pure]
      | true =>
          cases quoted : isQuote c with
          | true => simp [Fault.first, quoted, checkedAtom_eq, bind, Except.bind, pure, Except.pure]
          | false =>
              simp only [Fault.first, bind, Except.bind, if_true, quoted, List.head?_cons,
                Option.any_some, Bool.not_false, Bool.and_self, Bool.false_eq_true, if_false]
              exact mapM_eq_ok fun factor _ => checkedAtom_eq factor

theorem checkedTerm_eq (piece : Piece) : checkedTerm piece = .ok piece.term := by
  rw [checkedTerm, checkedFactors_eq]
  rfl

theorem checkedTerms_eq (negative : Bool) (pieces : List Piece) :
    checkedTerms negative pieces = .ok (termsOf negative pieces) := by
  induction pieces generalizing negative with
  | nil => rfl
  | cons piece rest ih =>
      unfold checkedTerms termsOf
      split
      · exact ih _
      split
      · rw [checkedTerm_eq, mapM_eq_ok fun other _ => checkedTerm_eq other]
        rfl
      · rfl

/-- Every expression is read without faults. -/
theorem checkedRead_eq (text : List Char) : checkedRead text = .ok (read text) := by
  rw [checkedRead, checkedAtom_eq, checkedTerms_eq]
  rfl

end Expr

/-! ## source lines -/

namespace Source

variable {cs : List Char}

/-- A text that starts with none blank starts with a word. -/
theorem checkedHeadWord_eq (solid : trimStart cs = cs) (h : cs ≠ []) :
    checkedHeadWord cs = .ok (headWord cs) := by
  rw [checkedHeadWord, solid]
  cases cs with
  | nil => exact absurd rfl h
  | cons c rest => rfl

theorem checkedStatement_eq (solid : trimStart cs = cs) (labelled : Bool) :
    checkedStatement labelled cs = .ok (statement labelled cs) := by
  cases cs with
  | nil => rfl
  | cons c rest =>
      unfold checkedStatement statement
      rw [checkedHeadWord_eq solid (List.cons_ne_nil c rest)]
      simp only [List.cons_ne_nil, if_false, bind, Except.bind, pure, Except.pure]
      split
      · rfl
      split
      case isTrue more =>
          have behind : trimStart (headWord (c :: rest)).2 = (headWord (c :: rest)).2 :=
            trimStart_trim _
          rw [checkedHeadWord_eq behind more]
          dsimp only
          split <;> rfl
      case isFalse => split <;> rfl

/-- Every line is read without faults. -/
theorem checkedLine?_eq (number : Nat) (text : String) :
    checkedLine? number text = .ok (parseLine? number text) := by
  have solid : trimStart (stripComment text.toList) = stripComment text.toList := trimStart_trim _
  unfold checkedLine? parseLine?
  generalize stripComment text.toList = cs at solid
  cases cs with
  | nil => rfl
  | cons c rest =>
      dsimp only
      rw [checkedStatement_eq (trimStart_colonLabels solid)]
      rfl

theorem checkedParse_eq (text : String) : checkedParse text = .ok (parse text) := by
  rw [checkedParse, mapM_eq_ok fun line _ => checkedLine?_eq line.2 line.1]
  simp only [bind, Except.bind, pure, Except.pure, List.filterMap_map]
  rfl

theorem pushFront_ne_nil (c : Char) (pieces : List (List Char)) : pushFront c pieces ≠ [] := by
  cases pieces <;> exact List.cons_ne_nil _ _

/-- A directive always has an operand, if only an empty one. -/
theorem splitData_ne_nil (cs : List Char) : splitData cs ≠ [] := by
  rw [splitData, Ne, List.map_eq_nil_iff]
  cases cs with
  | nil => exact List.cons_ne_nil _ _
  | cons c rest =>
      rw [dataPieces]
      split
      · exact pushFront_ne_nil _ _
      split
      · exact List.cons_ne_nil _ _
      · exact pushFront_ne_nil _ _

end Source

end Z80Workbench
