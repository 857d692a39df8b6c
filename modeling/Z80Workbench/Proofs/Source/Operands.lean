import Mathlib.Data.List.Infix
import Z80Workbench.Proofs.Expr.LetterCase
import Z80Workbench.Proofs.Source.Comment

/-!
# Z80Workbench.Proofs.Source.Operands

Splitting operands undoes joining them.  Each of the two rules has a state while it reads: a
quotation mark that is open, and for the operands of an instruction a number of parentheses too.  An
operand that closes what it opens leaves the state as it has found it, and so the comma behind it
is the first one that splits.  Where nothing but quotation marks counts, both rules split alike.
-/

namespace Z80Workbench.Source

open Text
open Z80Workbench.Expr (isQuote foldr_pushFront)

/-! ## operands -/

/-- The quotation mark that is open behind a text which follows the characters `p` and `q` inside
the given quote; an apostrophe that names the shadow register opens none. -/
def markFrom (quote : Option Char) (p q : Char) : List Char → Option Char
  | [] => quote
  | c :: rest =>
    match quote with
    | some mark => markFrom (if c = mark then none else some mark) q c rest
    | none =>
      if isQuote c && !(c = '\'' && spellsAf p q) then markFrom (some c) q c rest
      else markFrom none q c rest

/-- The quotation mark that is open behind the operands of an instruction. -/
def openMark (text : List Char) : Option Char := markFrom none ' ' ' ' text

/-- The parentheses that are opened outside quotes. -/
def openings (marked : List Marked) : Nat := marked.countP fun m => m.outside && m.char = '('

/-- The parentheses that are closed outside quotes. -/
def closings (marked : List Marked) : Nat := marked.countP fun m => m.outside && m.char = ')'

/-- A comma outside quotes. -/
def Marked.comma : Marked := ⟨',', true⟩

/-- An operand of an instruction: its quotes are closed, its parentheses are balanced, and its
commas lie inside quotes or parentheses. -/
structure IsOperand (text : List Char) : Prop where
  trimmed : trim text = text
  nonempty : text ≠ []
  closed : openMark text = none
  balanced : closings (marks text) = openings (marks text)
  nested : ∀ front ∈ (marks text).inits, closings front ≤ openings front
  commas : ∀ front ∈ (marks text).inits, front ++ [.comma] <+: marks text →
    closings front < openings front

instance (text : List Char) : Decidable (IsOperand text) :=
  decidable_of_iff
    (trim text = text ∧ text ≠ [] ∧ openMark text = none ∧
      closings (marks text) = openings (marks text) ∧
      (∀ front ∈ (marks text).inits, closings front ≤ openings front) ∧
      ∀ front ∈ (marks text).inits, front ++ [.comma] <+: marks text →
        closings front < openings front)
    ⟨fun ⟨trimmed, nonempty, closed, balanced, nested, commas⟩ =>
      ⟨trimmed, nonempty, closed, balanced, nested, commas⟩,
      fun h => ⟨h.trimmed, h.nonempty, h.closed, h.balanced, h.nested, h.commas⟩⟩

/-- The quotation mark that is open behind data which starts inside the given quote. -/
def dataMark (quote : Option Char) : List Char → Option Char
  | [] => quote
  | c :: rest =>
    match quote with
    | some mark => dataMark (if c = mark then none else some mark) rest
    | none => dataMark (if isQuote c then some c else none) rest

/-- A data operand: its quotes are closed, and its commas lie inside quotes.  It may be empty. -/
structure IsItem (text : List Char) : Prop where
  trimmed : trim text = text
  closed : dataMark none text = none
  commas : ∀ front ∈ text.inits, front ++ [','] <+: text → dataMark none front ≠ none

instance (text : List Char) : Decidable (IsItem text) :=
  decidable_of_iff
    (trim text = text ∧ dataMark none text = none ∧
      ∀ front ∈ text.inits, front ++ [','] <+: text → dataMark none front ≠ none)
    ⟨fun ⟨trimmed, closed, commas⟩ => ⟨trimmed, closed, commas⟩,
      fun h => ⟨h.trimmed, h.closed, h.commas⟩⟩

/-- The letters AF stand in front of an apostrophe outside quotes. -/
def NamesShadow (text : List Char) : Prop :=
  ∃ front p q back, text = front ++ p :: q :: '\'' :: back ∧ spellsAf p q = true ∧
    openMark (front ++ [p, q]) = none

/-! ## joined texts -/

/-- Operands with a comma and a space between any two. -/
def joined (operands : List (List Char)) : List Char := [',', ' '].intercalate operands

theorem joined_cons (first next : List Char) (more : List (List Char)) :
    joined (first :: next :: more) = first ++ ',' :: ' ' :: joined (next :: more) := by
  simp [joined, List.intercalate_cons_cons]

/-- A joined text starts with the first operand. -/
theorem exists_joined_cons (first : List Char) (rest : List (List Char)) :
    ∃ back, joined (first :: rest) = first ++ back := by
  cases rest with
  | nil => exact ⟨[], by simp [joined]⟩
  | cons next more => exact ⟨_, joined_cons first next more⟩

/-- A way of splitting undoes joining if it leaves a trimmed operand whole, alone or in front of a
comma. -/
theorem map_trim_joined {split : List Char → List (List Char)} {operands : List (List Char)}
    (hne : operands ≠ [])
    (trimmed : ∀ operand ∈ operands, trim operand = operand)
    (whole : ∀ operand ∈ operands, split operand = [operand])
    (comma : ∀ operand ∈ operands, ∀ more,
      split (operand ++ ',' :: ' ' :: more) = operand :: pushFront ' ' (split more)) :
    (split (joined operands)).map trim = operands := by
  induction operands with
  | nil => exact absurd rfl hne
  | cons operand rest ih =>
      have first : trim operand = operand := trimmed operand List.mem_cons_self
      cases rest with
      | nil =>
          rw [joined, List.intercalate_singleton, whole operand List.mem_cons_self,
            List.map_singleton, first]
      | cons next more =>
          have ih := ih (List.cons_ne_nil next more)
            (fun other ho => trimmed other (List.mem_cons_of_mem operand ho))
            (fun other ho => whole other (List.mem_cons_of_mem operand ho))
            (fun other ho => comma other (List.mem_cons_of_mem operand ho))
          rw [joined_cons, comma operand List.mem_cons_self, List.map_cons, first]
          -- the space behind the comma is trimmed off the next operand
          cases pieces : split (joined (next :: more)) with
          | nil => simp [pieces] at ih
          | cons piece others =>
              have space : trim (' ' :: piece) = trim piece :=
                trim_append (List.forall_mem_singleton.mpr (by decide)) piece
              rw [pushFront, List.map_cons, space, ← List.map_cons, ← pieces, ih]

/-! ## operands of an instruction -/

/-- What stands behind a text is marked by what the text leaves open. -/
theorem marksFrom_append (quote : Option Char) (p q : Char) (front back : List Char) :
    ∃ p' q', marksFrom quote p q (front ++ back) =
      marksFrom quote p q front ++ marksFrom (markFrom quote p q front) p' q' back := by
  induction front generalizing quote p q with
  | nil => exact ⟨p, q, rfl⟩
  | cons c rest ih =>
      cases quote with
      | some mark =>
          obtain ⟨p', q', split⟩ := ih (if c = mark then none else some mark) q c
          exact ⟨p', q', by simp only [List.cons_append, marksFrom, markFrom, split]⟩
      | none =>
          simp only [List.cons_append, marksFrom, markFrom]
          split
          case isTrue =>
              obtain ⟨p', q', split⟩ := ih (some c) q c
              exact ⟨p', q', by rw [split, List.cons_append]⟩
          case isFalse =>
              obtain ⟨p', q', split⟩ := ih none q c
              exact ⟨p', q', by rw [split, List.cons_append]⟩

/-- Behind an operand, a comma and a space the marks start anew. -/
theorem marks_joined {operand : List Char} (closed : openMark operand = none)
    (more : List Char) :
    marks (operand ++ ',' :: ' ' :: more) =
      marks operand ++ .comma :: ⟨' ', true⟩ :: marks more := by
  obtain ⟨p, q, split⟩ := marksFrom_append none ' ' ' ' operand (',' :: ' ' :: more)
  have comma : isQuote ',' = false := by decide
  have space : isQuote ' ' = false := by decide
  rw [marks, split, ← openMark, closed]
  simp only [marksFrom, comma, space, Bool.false_and, Bool.false_eq_true, if_false,
    marksFrom_space]
  rfl

/-- The parentheses that are open behind a character. -/
def depthBehind (depth : Nat) (m : Marked) : Nat :=
  if m.outside && m.char = '(' then depth + 1
  else if m.outside && m.char = ')' then depth - 1
  else depth

/-- A character opens or closes one parenthesis at most. -/
theorem depthBehind_eq {depth : Nat} {m : Marked} (nested : closings [m] ≤ depth + openings [m]) :
    depthBehind depth m + closings [m] = depth + openings [m] := by
  unfold depthBehind
  by_cases opens : m.outside && m.char = '('
  case pos =>
      have other : (m.outside && m.char = ')') = false := by
        rw [Bool.and_eq_true, decide_eq_true_eq] at opens
        simp [opens.2]
      simp [openings, closings, opens, other]
  case neg =>
      by_cases closes : m.outside && m.char = ')'
      · simp [openings, closings, opens, closes] at nested ⊢
        omega
      · simp [openings, closings, opens, closes]

/-- A comma splits where no parenthesis is open; nothing else does. -/
theorem operandPieces_cons (depth : Nat) (m : Marked) (rest : List Marked) :
    operandPieces depth (m :: rest) =
      if m = .comma ∧ depth = 0 then [] :: operandPieces depth rest
      else pushFront m.char (operandPieces (depthBehind depth m) rest) := by
  obtain ⟨c, outside⟩ := m
  have splits : (outside && c = ',' && depth = 0) = true ↔
      ⟨c, outside⟩ = Marked.comma ∧ depth = 0 := by
    simp [Marked.comma, and_comm]
  rw [operandPieces]
  simp only [splits, depthBehind]

theorem openings_cons (m : Marked) (rest : List Marked) :
    openings (m :: rest) = openings [m] + openings rest := by
  rw [← List.singleton_append, openings, List.countP_append]
  rfl

theorem closings_cons (m : Marked) (rest : List Marked) :
    closings (m :: rest) = closings [m] + closings rest := by
  rw [← List.singleton_append, closings, List.countP_append]
  rfl

/-- A comma at which no parenthesis is open is the first that splits. -/
theorem operandPieces_append {front : List Marked} {depth : Nat}
    (nested : ∀ part, part <+: front → closings part ≤ depth + openings part)
    (commas : ∀ part, part ++ [.comma] <+: front → closings part < depth + openings part)
    (back : List Marked) :
    operandPieces depth (front ++ back) =
      (front.map (·.char)).foldr pushFront
        (operandPieces (depth + openings front - closings front) back) := by
  induction front generalizing depth with
  | nil => simp [openings, closings]
  | cons m rest ih =>
      have behind := depthBehind_eq (nested [m] ⟨rest, rfl⟩)
      have inside : ¬(m = .comma ∧ depth = 0) := by
        rintro ⟨rfl, rfl⟩
        exact absurd (commas [] ⟨rest, rfl⟩) (Nat.lt_irrefl 0)
      have final : depth + openings (m :: rest) - closings (m :: rest) =
          depthBehind depth m + openings rest - closings rest := by
        rw [openings_cons, closings_cons]
        omega
      rw [List.cons_append, operandPieces_cons, if_neg inside, final, List.map_cons,
        List.foldr_cons]
      congr 1
      refine ih (fun part hp => ?_) (fun part hp => ?_)
      · have := nested (m :: part) (List.cons_prefix_cons.mpr ⟨rfl, hp⟩)
        rw [openings_cons, closings_cons] at this
        omega
      · have := commas (m :: part) (List.cons_prefix_cons.mpr ⟨rfl, hp⟩)
        rw [openings_cons, closings_cons] at this
        omega

/-- The pieces of an operand and of what stands behind it. -/
theorem operandPieces_marks {operand : List Char} (h : IsOperand operand) (back : List Marked) :
    operandPieces 0 (marks operand ++ back) = operand.foldr pushFront (operandPieces 0 back) := by
  have nested (part) (hp : part <+: marks operand) : closings part ≤ 0 + openings part := by
    rw [Nat.zero_add]
    exact h.nested part ((List.mem_inits _ _).mpr hp)
  have commas (part) (hp : part ++ [.comma] <+: marks operand) :
      closings part < 0 + openings part := by
    rw [Nat.zero_add]
    exact h.commas part ((List.mem_inits _ _).mpr ((List.prefix_append _ _).trans hp)) hp
  rw [operandPieces_append nested commas, map_char_marks, h.balanced, Nat.zero_add, Nat.sub_self]

theorem splitOperands_joined {operands : List (List Char)} (hne : operands ≠ [])
    (h : ∀ operand ∈ operands, IsOperand operand) : splitOperands (joined operands) = operands := by
  have undone : (operandPieces 0 (marks (joined operands))).map trim = operands := by
    refine @map_trim_joined (fun text => operandPieces 0 (marks text)) operands hne
      (fun operand ho => (h operand ho).trimmed) ?whole ?comma
    case whole =>
        intro operand ho
        rw [← List.append_nil (marks operand), operandPieces_marks (h operand ho), operandPieces,
          foldr_pushFront, List.append_nil]
    case comma =>
        intro operand ho more
        rw [marks_joined (h operand ho).closed, operandPieces_marks (h operand ho)]
        simp [operandPieces, Marked.comma, foldr_pushFront]
  have solid : trim (joined operands) ≠ [] := by
    obtain ⟨first, rest, rfl⟩ := List.exists_cons_of_ne_nil hne
    obtain ⟨back, split⟩ := exists_joined_cons first rest
    have good := h first List.mem_cons_self
    rw [split, Ne, trim_eq_nil_iff]
    intro blank
    have none : trim first = [] :=
      trim_eq_nil_iff.mpr fun c hc => blank c (List.mem_append_left back hc)
    exact good.nonempty (good.trimmed.symm.trans none)
  rw [splitOperands, if_neg solid, undone]

/-! ## operands of data -/

/-- A comma at which no quotation mark is open is the first that splits. -/
theorem dataPieces_append {quote : Option Char} {front : List Char}
    (commas : ∀ part, part ++ [','] <+: front → dataMark quote part ≠ none) (back : List Char) :
    dataPieces quote (front ++ back) =
      front.foldr pushFront (dataPieces (dataMark quote front) back) := by
  induction front generalizing quote with
  | nil => rfl
  | cons c rest ih =>
      have later {after : Option Char}
          (step : ∀ part, dataMark quote (c :: part) = dataMark after part) :
          dataPieces after (rest ++ back) =
            rest.foldr pushFront (dataPieces (dataMark quote (c :: rest)) back) := by
        rw [step]
        refine ih fun part hp => ?_
        rw [← step]
        exact commas (c :: part) (List.cons_prefix_cons.mpr ⟨rfl, hp⟩)
      cases quote with
      | some mark =>
          rw [List.cons_append, dataPieces, later fun _ => rfl]
          rfl
      | none =>
          have inside : c ≠ ',' := by
            rintro rfl
            exact commas [] ⟨rest, rfl⟩ rfl
          by_cases quotes : isQuote c = true
          · rw [List.cons_append, dataPieces, if_pos quotes,
              later fun _ => by simp [dataMark, quotes]]
            rfl
          · rw [List.cons_append, dataPieces, if_neg quotes, if_neg inside,
              later fun _ => by simp [dataMark, quotes]]
            rfl

theorem dataPieces_item {item : List Char} (h : IsItem item) (back : List Char) :
    dataPieces none (item ++ back) = item.foldr pushFront (dataPieces none back) := by
  have commas (part) (hp : part ++ [','] <+: item) : dataMark none part ≠ none :=
    h.commas part ((List.mem_inits _ _).mpr ((List.prefix_append _ _).trans hp)) hp
  rw [dataPieces_append commas, h.closed]

theorem splitData_joined {items : List (List Char)} (hne : items ≠ [])
    (h : ∀ item ∈ items, IsItem item) : splitData (joined items) = items := by
  refine map_trim_joined hne (fun item hi => (h item hi).trimmed) ?whole ?comma
  case whole =>
      intro item hi
      have whole := dataPieces_item (h item hi) []
      rwa [List.append_nil, dataPieces, foldr_pushFront, List.append_nil] at whole
  case comma =>
      intro item hi more
      have plain : isQuote ',' = false ∧ isQuote ' ' = false := by decide
      rw [dataPieces_item (h item hi)]
      simp [dataPieces, plain, foldr_pushFront]

/-! ## both rules -/

/-- An apostrophe that lies outside quotes stands behind the letters AF. -/
theorem exists_of_apostrophe {quote : Option Char} {p q : Char} {text : List Char}
    (h : ⟨'\'', true⟩ ∈ marksFrom quote p q text) :
    ∃ before front a f back, p :: q :: front = before ++ [a, f] ∧ text = front ++ '\'' :: back ∧
      spellsAf a f = true ∧ markFrom quote p q front = none := by
  induction text generalizing quote p q with
  | nil => cases h
  | cons c rest ih =>
      have later {after : Option Char} (hm : ⟨'\'', true⟩ ∈ marksFrom after q c rest)
          (step : ∀ front, markFrom quote p q (c :: front) = markFrom after q c front) :
          ∃ before front a f back, p :: q :: front = before ++ [a, f] ∧
            c :: rest = front ++ '\'' :: back ∧ spellsAf a f = true ∧
              markFrom quote p q front = none := by
        obtain ⟨before, front, a, f, back, last, split, af, closed⟩ := ih hm
        exact ⟨p :: before, c :: front, a, f, back, by rw [last, List.cons_append],
          by rw [split, List.cons_append], af, by rw [step, closed]⟩
      cases quote with
      | some mark =>
          obtain hc | hm := List.mem_cons.mp h
          · cases hc
          · exact later hm fun _ => rfl
      | none =>
          rw [marksFrom] at h
          split at h
          case isTrue opens =>
              obtain hc | hm := List.mem_cons.mp h
              · cases hc
              · exact later hm fun _ => by rw [markFrom, if_pos opens]
          case isFalse stays =>
              obtain hc | hm := List.mem_cons.mp h
              · cases hc
                have af : spellsAf p q = true := by simpa [isQuote] using stays
                exact ⟨[], [], p, q, rest, rfl, rfl, af, rfl⟩
              · exact later hm fun _ => by rw [markFrom, if_neg stays]

theorem namesShadow_of_apostrophe {text : List Char} (h : ⟨'\'', true⟩ ∈ marks text) :
    NamesShadow text := by
  obtain ⟨before, front, a, f, back, last, split, af, closed⟩ := exists_of_apostrophe h
  -- the letters are part of the text, since none of them is a space
  have first : a ≠ ' ' := by
    rintro rfl
    rw [spellsAf_of_isBlank (.inl (by decide))] at af
    cases af
  match before, last with
  | [], last => exact absurd (List.cons_eq_cons.mp last).1.symm first
  | [_], last => exact absurd (List.cons_eq_cons.mp (List.cons_eq_cons.mp last).2).1.symm first
  | _ :: _ :: before, last =>
      obtain rfl : front = before ++ [a, f] :=
        (List.cons_eq_cons.mp (List.cons_eq_cons.mp last).2).2
      exact ⟨before, a, f, back, by simpa using split, af, closed⟩

theorem operandPieces_eq_dataPieces {quote : Option Char} {p q : Char} {text : List Char}
    (flat : '(' ∉ text) (plain : ⟨'\'', true⟩ ∉ marksFrom quote p q text) :
    operandPieces 0 (marksFrom quote p q text) = dataPieces quote text := by
  induction text generalizing quote p q with
  | nil => cases quote <;> rfl
  | cons c rest ih =>
      have unopened : c ≠ '(' := fun hc => flat (hc ▸ List.mem_cons_self)
      have ih {after : Option Char} (hm : ⟨'\'', true⟩ ∉ marksFrom after q c rest) :=
        ih (fun hc => flat (List.mem_cons_of_mem c hc)) hm
      cases quote with
      | some mark =>
          rw [marksFrom] at plain ⊢
          have later := ih fun hm => plain (List.mem_cons_of_mem _ hm)
          simp [operandPieces, dataPieces, later]
      | none =>
          rw [marksFrom] at plain ⊢
          split at plain
          case isTrue opens =>
              have later := ih fun hm => plain (List.mem_cons_of_mem _ hm)
              have quotes := (Bool.and_eq_true_iff.mp opens).1
              rw [if_pos opens]
              simp [operandPieces, dataPieces, quotes, later]
          case isFalse stays =>
              have later := ih fun hm => plain (List.mem_cons_of_mem _ hm)
              have unquoted : isQuote c = false := by
                rw [← Bool.not_eq_true]
                intro quotes
                have apostrophe : c = '\'' := by
                  rw [quotes] at stays
                  by_contra other
                  simp [other] at stays
                exact plain (apostrophe ▸ List.mem_cons_self)
              rw [if_neg stays, dataPieces, unquoted]
              obtain rfl | other := eq_or_ne c ','
              · simp [operandPieces, later]
              · simp [operandPieces, unopened, other, later]

theorem splitOperands_eq_splitData {text : List Char} (solid : trim text ≠ [])
    (flat : '(' ∉ text) (unshadowed : ¬NamesShadow text) : splitOperands text = splitData text := by
  have plain : ⟨'\'', true⟩ ∉ marks text := mt namesShadow_of_apostrophe unshadowed
  rw [splitOperands, if_neg solid, splitData, marks, operandPieces_eq_dataPieces flat plain]

/-- Splitting the operands of an instruction, and those of data, undoes joining them; where there
are neither parentheses nor a shadow register outside quotes, both split alike. -/
theorem split_joined :
    (∀ operands : List (List Char), operands ≠ [] → (∀ operand ∈ operands, IsOperand operand) →
      splitOperands (joined operands) = operands) ∧
      (∀ items : List (List Char), items ≠ [] → (∀ item ∈ items, IsItem item) →
        splitData (joined items) = items) ∧
      ∀ text : List Char, trim text ≠ [] → '(' ∉ text → ¬NamesShadow text →
        splitOperands text = splitData text :=
  ⟨fun _ hne h => splitOperands_joined hne h, fun _ hne h => splitData_joined hne h,
    fun _ solid flat unshadowed => splitOperands_eq_splitData solid flat unshadowed⟩

/-- The shadow register, parentheses in parentheses and in quotes, and commas in either. -/
def shadowed : List (List Char) :=
  ["AF'".toList, "(BUF+(1,2))".toList, "'('".toList, "\"a, 'b'\"".toList]

theorem split_joined_shadowed :
    (∀ operand ∈ shadowed, IsOperand operand) ∧
      splitOperands "AF', (BUF+(1,2)), '(', \"a, 'b'\"".toList = shadowed ∧
      splitData "'a,(', , 2".toList = ["'a,('".toList, [], ['2']] ∧
      splitOperands "1, \"a,b\", c)".toList = splitData "1, \"a,b\", c)".toList := by
  have good : ∀ operand ∈ shadowed, IsOperand operand := by decide +kernel
  have items : ∀ item ∈ ["'a,('".toList, [], ['2']], IsItem item := by decide +kernel
  have unshadowed : ¬NamesShadow "1, \"a,b\", c)".toList := by
    rintro ⟨front, p, q, back, split, -⟩
    have apostrophe : '\'' ∈ "1, \"a,b\", c)".toList := by
      rw [split]
      simp
    exact absurd apostrophe (by decide +kernel)
  obtain ⟨operands, data, alike⟩ := split_joined
  exact ⟨good, operands shadowed (by decide) good, data _ (by decide) items,
    alike _ (by decide +kernel) (by decide +kernel) unshadowed⟩

end Z80Workbench.Source
