import Mathlib.Data.Nat.Digits.Defs
import Z80Workbench.Proofs.Expr.LetterCase
import Z80Workbench.Text.Hex

/-!
# Z80Workbench.Proofs.Expr.Literal

The grammar of literals.  `Denotes` says which texts are literals and which number each of them
denotes, form by form and without an order among the forms; the reader tries them one after another,
in capital letters, and gives up where a form has begun and does not go on.  Both agree on every
ASCII text, so that no text denotes two numbers although the forms overlap: `0B1` is binary, `0B`
is a zero in the suffixed binary form, and `0B1H` is hexadecimal.
-/

namespace Z80Workbench

open Text

/-- On ASCII the decimal digits are the only digit signs. -/
theorem Text.isDigitSign_of_ascii {c : Char} (h : c.toNat < 128) : isDigitSign c = c.isDigit :=
  forall_ascii (P := fun c => isDigitSign c = c.isDigit) (by decide +kernel) h

theorem Text.toNat_of_isDigit {c : Char} (h : c.isDigit) : c.toNat < 128 := by
  simp only [Char.isDigit, Bool.and_eq_true, decide_eq_true_eq] at h
  have last : c.toNat ≤ 57 := h.2
  omega

/-- Digits have no letter case. -/
theorem Text.upperChar_of_isDigit {c : Char} (h : c.isDigit) : upperChar c = [c] := by
  have same : c.isDigit → upperAscii c = c :=
    forall_ascii (P := fun c => c.isDigit → upperAscii c = c) (by decide +kernel)
      (toNat_of_isDigit h)
  rw [upperChar_of_ascii (toNat_of_isDigit h), same h]

namespace Expr

/-! ## the grammar -/

/-- The value of a hexadecimal digit in either letter case. -/
def digit? (c : Char) : Option Nat :=
  if '0' ≤ c ∧ c ≤ '9' then some (c.toNat - 48)
  else if 'A' ≤ c ∧ c ≤ 'F' then some (c.toNat - 55)
  else if 'a' ≤ c ∧ c ≤ 'f' then some (c.toNat - 87)
  else none

/-- A row of digits, leading zeros among them, denotes a number in a base. -/
def Numeral (base : Nat) (cs : List Char) (n : Nat) : Prop :=
  ∃ ds : List Nat, ds ≠ [] ∧ cs.map digit? = ds.map some ∧ (∀ d ∈ ds, d < base) ∧
    Nat.ofDigits base ds.reverse = n

/-- A text is a literal and denotes a number. -/
inductive Denotes : List Char → Nat → Prop
  | character {q c : Char} (hq : isQuote q = true) : Denotes [q, c, q] c.toNat
  | hexMark {x : Char} {cs : List Char} {n : Nat} (hx : x ∈ ['x', 'X']) (h : Numeral 16 cs n) :
      Denotes ('0' :: x :: cs) n
  | hexAmpersand {x : Char} {cs : List Char} {n : Nat} (hx : x ∈ ['h', 'H'])
      (h : Numeral 16 cs n) : Denotes ('&' :: x :: cs) n
  | hexHash {cs : List Char} {n : Nat} (h : Numeral 16 cs n) : Denotes ('#' :: cs) n
  | hexDollar {cs : List Char} {n : Nat} (h : Numeral 16 cs n) : Denotes ('$' :: cs) n
  | hexSuffix {c x : Char} {cs : List Char} {n : Nat} (hc : c.isDigit) (hx : x ∈ ['h', 'H'])
      (h : Numeral 16 (c :: cs) n) : Denotes (c :: cs ++ [x]) n
  | binaryPercent {cs : List Char} {n : Nat} (h : Numeral 2 cs n) : Denotes ('%' :: cs) n
  | binaryMark {x : Char} {cs : List Char} {n : Nat} (hx : x ∈ ['b', 'B']) (h : Numeral 2 cs n) :
      Denotes ('0' :: x :: cs) n
  | binarySuffix {x : Char} {cs : List Char} {n : Nat} (hx : x ∈ ['b', 'B']) (h : Numeral 2 cs n) :
      Denotes (cs ++ [x]) n
  | decimal {cs : List Char} {n : Nat} (h : Numeral 10 cs n) : Denotes cs n

/-! ## digits -/

variable {base n : Nat} {c : Char} {cs : List Char}

/-- A digit is ASCII. -/
theorem toNat_of_digit? {d : Nat} (h : digit? c = some d) : c.toNat < 128 := by
  by_contra beyond
  have none : digit? c = none := by
    have above (last : Char) (hl : last.toNat < 128) : ¬c ≤ last := by
      intro hc
      have := UInt32.le_iff_toNat_le.mp (Char.le_def.mp hc)
      exact beyond (Nat.lt_of_le_of_lt this hl)
    simp [digit?, above]
  rw [none] at h
  contradiction

/-- A digit is read as its capital letter. -/
theorem digitValue?_upperAscii (h : c.toNat < 128) : digitValue? (upperAscii c) = digit? c :=
  forall_ascii (P := fun c => digitValue? (upperAscii c) = digit? c) (by decide +kernel) h

/-- What is read are the values of the digits, each further one below those before it. -/
theorem digitsFrom?_eq_some_iff {acc : Nat} :
    digitsFrom? base acc cs = some n ↔ ∃ ds : List Nat, cs.map digitValue? = ds.map some ∧
      (∀ d ∈ ds, d < base) ∧ ds.foldl (fun m d => m * base + d) acc = n := by
  induction cs generalizing acc with
  | nil =>
      simp [digitsFrom?, eq_comm (a := ([] : List (Option Nat)))]
  | cons c rest ih =>
      rw [digitsFrom?]
      constructor
      · intro h
        split at h
        case h_1 d hd =>
            split at h
            case isTrue lt =>
                obtain ⟨ds, hm, hlt, hn⟩ := ih.mp h
                refine ⟨d :: ds, ?_, List.forall_mem_cons.mpr ⟨lt, hlt⟩, hn⟩
                rw [List.map_cons, List.map_cons, hd, hm]
            case isFalse => contradiction
        case h_2 => contradiction
      · rintro ⟨ds, hm, hlt, hn⟩
        cases ds with
        | nil => contradiction
        | cons d ds =>
            obtain ⟨hd, hm⟩ := List.cons_eq_cons.mp hm
            rw [hd]
            dsimp only
            rw [if_pos (hlt d List.mem_cons_self)]
            exact ih.mpr ⟨ds, hm, fun e he => hlt e (List.mem_cons_of_mem d he), hn⟩

theorem foldl_eq_ofDigits (base : Nat) (ds : List Nat) :
    ds.foldl (fun m d => m * base + d) 0 = Nat.ofDigits base ds.reverse := by
  rw [Nat.ofDigits_eq_foldr, List.foldr_reverse]
  congr
  funext m d
  simp [Nat.add_comm, Nat.mul_comm]

/-- A row of digits is read in capital letters as the number it denotes. -/
theorem digits?_upper_iff (ascii : ∀ c ∈ cs, c.toNat < 128) :
    digits? base (upper cs) = some n ↔ Numeral base cs n := by
  have values : (upper cs).map digitValue? = cs.map digit? := by
    rw [upper_of_ascii ascii, List.map_map]
    exact List.map_congr_left fun c hc => digitValue?_upperAscii (ascii c hc)
  have empty : upper cs = [] ↔ cs = [] := by rw [upper_of_ascii ascii, List.map_eq_nil_iff]
  rw [digits?]
  constructor
  · intro h
    split at h
    case isTrue => contradiction
    case isFalse ne =>
        obtain ⟨ds, hm, hlt, rfl⟩ := digitsFrom?_eq_some_iff.mp h
        rw [values] at hm
        refine ⟨ds, ?_, hm, hlt, (foldl_eq_ofDigits base ds).symm⟩
        rintro rfl
        exact ne (empty.mpr (List.map_eq_nil_iff.mp hm))
  · rintro ⟨ds, ne, hm, hlt, rfl⟩
    have some : cs ≠ [] := by
      rintro rfl
      exact ne (List.map_eq_nil_iff.mp hm.symm)
    rw [if_neg (mt empty.mp some)]
    exact digitsFrom?_eq_some_iff.mpr ⟨ds, by rw [values, hm], hlt, foldl_eq_ofDigits base ds⟩

/-- Every character of a row that is read has a value below the base. -/
theorem digitValue?_of_mem (h : digits? base cs = some n) (hc : c ∈ cs) :
    ∃ d < base, digitValue? c = some d := by
  rw [digits?] at h
  split at h
  case isTrue => contradiction
  case isFalse =>
      obtain ⟨ds, hm, hlt, -⟩ := digitsFrom?_eq_some_iff.mp h
      obtain ⟨d, hd, he⟩ := List.mem_map.mp (hm ▸ List.mem_map_of_mem hc)
      exact ⟨d, hlt d hd, he.symm⟩

/-- A row that holds something else than digits of the base is not read. -/
theorem digits?_of_mem (hc : c ∈ cs) (h : ∀ d < base, digitValue? c ≠ some d) :
    digits? base cs = none := by
  rw [Option.eq_none_iff_forall_ne_some]
  intro n hn
  obtain ⟨d, lt, hd⟩ := digitValue?_of_mem hn hc
  exact h d lt hd

/-! ## reading in capital letters -/

theorem not_digit_x : ∀ d < 16, digitValue? 'X' ≠ some d := by decide

theorem not_digit_h : ∀ d < 16, digitValue? 'H' ≠ some d := by decide

theorem not_digit_b : ∀ d < 10, digitValue? 'B' ≠ some d := by decide

/-- A text that ends with an H is the suffixed hexadecimal form or nothing. -/
theorem digitInitial?_hex (cs : List Char) : digitInitial? (cs ++ ['H']) = digits? 16 cs := by
  simp [digitInitial?]

/-- Digits behind the binary mark are read. -/
theorem digitInitial?_mark (h : digits? 2 cs = some n) :
    digitInitial? ('0' :: 'B' :: cs) = some n := by
  have last : ('0' :: 'B' :: cs).getLast? ≠ some 'H' := by
    intro hl
    cases cs with
    | nil => contradiction
    | cons c rest =>
        obtain ⟨d, lt, hd⟩ := digitValue?_of_mem h (List.mem_of_getLast? (by simpa using hl))
        exact not_digit_h d (by omega) hd
  rw [digitInitial?, if_neg last]
  simp [h]

/-- Digits in front of the binary suffix are read: a binary mark with nothing behind it is a zero
with the suffix. -/
theorem digitInitial?_suffix (h : digits? 2 cs = some n) :
    digitInitial? (cs ++ ['B']) = some n := by
  have last : (cs ++ ['B']).getLast? ≠ some 'H' := by simp
  unfold digitInitial?
  rw [if_neg last]
  dsimp only
  split
  case h_1 rest he =>
      -- what stands behind the mark is empty, or ends with the suffix
      have none : digits? 2 rest = none := by
        cases rest with
        | nil => rfl
        | cons c rest =>
            have hb := congrArg List.getLast? he
            refine digits?_of_mem (List.mem_of_getLast? (by simpa using hb.symm)) ?_
            exact fun d hd => not_digit_b d (by omega)
      simp [none, h]
  case h_2 => simp [h]

/-- Decimal digits are read. -/
theorem digitInitial?_decimal (h : digits? 10 cs = some n) : digitInitial? cs = some n := by
  have absent (c : Char) (other : ∀ d < 10, digitValue? c ≠ some d) : c ∉ cs := by
    intro hc
    obtain ⟨d, lt, hd⟩ := digitValue?_of_mem h hc
    exact other d lt hd
  have noH : 'H' ∉ cs := absent 'H' fun d hd => not_digit_h d (by omega)
  have noB : 'B' ∉ cs := absent 'B' not_digit_b
  unfold digitInitial?
  rw [if_neg fun hl => noH (List.mem_of_getLast? hl),
    if_neg fun hl => noB (List.mem_of_getLast? hl)]
  dsimp only
  split
  case h_1 => simp at noB
  case h_2 => simpa using h

/-- What is read of a text that starts with a digit is one of four forms. -/
theorem exists_of_digitInitial? (h : digitInitial? cs = some n) :
    (∃ front, cs = front ++ ['H'] ∧ digits? 16 front = some n) ∨
    (∃ back, cs = '0' :: 'B' :: back ∧ digits? 2 back = some n) ∨
    (∃ front, cs = front ++ ['B'] ∧ digits? 2 front = some n) ∨
    digits? 10 cs = some n := by
  have ends {c : Char} (hl : cs.getLast? = some c) : cs = cs.dropLast ++ [c] :=
    (List.dropLast_append_getLast? c hl).symm
  unfold digitInitial? at h
  split at h
  case isTrue hl => exact .inl ⟨_, ends hl, h⟩
  case isFalse =>
      dsimp only at h
      rw [Option.or_eq_some_iff, Option.or_eq_some_iff] at h
      obtain (marked | ⟨-, suffixed⟩) | ⟨-, decimal⟩ := h
      · split at marked
        case h_1 => exact .inr (.inl ⟨_, rfl, marked⟩)
        case h_2 => contradiction
      · split at suffixed
        case isTrue hl => exact .inr (.inr (.inl ⟨_, ends hl, suffixed⟩))
        case isFalse => contradiction
      · exact .inr (.inr (.inr decimal))

/-- A text that starts with a digit, and has no hexadecimal mark, is read by its end. -/
theorem numeral?_of_digit {rest : List Char} (hc : c.isDigit) (noX : 'X' ∉ rest) :
    numeral? (c :: rest) = digitInitial? (c :: rest) := by
  have sign : isDigitSign c = true := by rw [isDigitSign_of_ascii (toNat_of_isDigit hc), hc]
  unfold numeral?
  split
  case h_2 heq => cases heq; simp at noX
  case h_7 heq => cases heq; rw [if_pos sign]
  all_goals
    rename_i heq
    cases heq
  all_goals contradiction

/-- What is read with values below ten starts with a decimal digit. -/
theorem isDigit_of_digits? {rest : List Char} (low : base ≤ 10)
    (h : digits? base (c :: rest) = some n) : c.isDigit := by
  obtain ⟨d, lt, hd⟩ := digitValue?_of_mem h List.mem_cons_self
  unfold digitValue? at hd
  split at hd
  case isTrue decimal =>
      rw [Char.isDigit, Bool.and_eq_true, decide_eq_true_eq, decide_eq_true_eq]
      exact decimal
  case isFalse =>
      split at hd
      case isTrue letter =>
          have : 65 ≤ c.toNat := UInt32.le_iff_toNat_le.mp (Char.le_def.mp letter.1)
          cases hd
          omega
      case isFalse => contradiction

/-- No digit is an X. -/
theorem x_not_mem (low : base ≤ 16) (h : digits? base cs = some n) : 'X' ∉ cs := by
  intro hx
  obtain ⟨d, lt, hd⟩ := digitValue?_of_mem h hx
  exact not_digit_x d (by omega) hd

theorem numeral?_hexSuffix {rest : List Char} (hc : c.isDigit)
    (h : digits? 16 (c :: rest) = some n) : numeral? (c :: rest ++ ['H']) = some n := by
  have noX : 'X' ∉ rest ++ ['H'] := by
    simp [List.not_mem_of_not_mem_cons (x_not_mem (by decide) h)]
  rw [List.cons_append, numeral?_of_digit hc noX, ← List.cons_append, digitInitial?_hex, h]

theorem numeral?_binaryMark (h : digits? 2 cs = some n) :
    numeral? ('0' :: 'B' :: cs) = some n := by
  have noX : 'X' ∉ 'B' :: cs := by simp [x_not_mem (by decide) h]
  rw [numeral?_of_digit (by decide) noX, digitInitial?_mark h]

theorem numeral?_binarySuffix (h : digits? 2 cs = some n) :
    numeral? (cs ++ ['B']) = some n := by
  cases cs with
  | nil => contradiction
  | cons c rest =>
      have noX : 'X' ∉ rest ++ ['B'] := by
        simp [List.not_mem_of_not_mem_cons (x_not_mem (by decide) h)]
      rw [List.cons_append, numeral?_of_digit (isDigit_of_digits? (by decide) h) noX,
        ← List.cons_append, digitInitial?_suffix h]

theorem numeral?_decimal (h : digits? 10 cs = some n) : numeral? cs = some n := by
  cases cs with
  | nil => contradiction
  | cons c rest =>
      have noX : 'X' ∉ rest := List.not_mem_of_not_mem_cons (x_not_mem (by decide) h)
      rw [numeral?_of_digit (isDigit_of_digits? (by decide) h) noX, digitInitial?_decimal h]

/-- No numeral starts with a quotation mark. -/
theorem numeral?_quote {q : Char} (hq : isQuote q = true) (rest : List Char) :
    numeral? (q :: rest) = none := by
  have noDigits : isDigitSign '\'' = false ∧ isDigitSign '"' = false := by decide +kernel
  simp only [isQuote, Bool.or_eq_true, decide_eq_true_eq] at hq
  rcases hq with rfl | rfl <;> simp [numeral?, noDigits]

/-! ## literals are read -/

/-- Every character of a numeral is a digit of the base. -/
theorem Numeral.exists_digit (h : Numeral base cs n) (hc : c ∈ cs) :
    ∃ d < base, digit? c = some d := by
  obtain ⟨ds, -, hm, hlt, -⟩ := h
  obtain ⟨d, hd, he⟩ := List.mem_map.mp (hm ▸ List.mem_map_of_mem hc)
  exact ⟨d, hlt d hd, he.symm⟩

theorem Numeral.ascii (h : Numeral base cs n) : ∀ c ∈ cs, c.toNat < 128 := by
  intro c hc
  obtain ⟨d, -, hd⟩ := h.exists_digit hc
  exact toNat_of_digit? hd

theorem Numeral.digits? (h : Numeral base cs n) : digits? base (upper cs) = some n :=
  (digits?_upper_iff h.ascii).mpr h

/-- The letters of marks and suffixes are read in either case. -/
theorem upperChar_letter : ∀ l ∈ ['X', 'H', 'B'], ∀ x ∈ [l.toLower, l],
    upperChar x = [l] ∧ isBlank x = false := by
  have rows : (['X', 'H', 'B'].all fun l => [l.toLower, l].all fun x =>
      upperChar x = [l] ∧ isBlank x = false) = true := by
    decide +kernel
  simpa only [List.all_eq_true, decide_eq_true_eq] using rows

/-- The signs in front of numerals have no letter case. -/
theorem upperChar_front : ∀ s ∈ ['0', '&', '#', '$', '%'], upperChar s = [s] := by
  have rows : (['0', '&', '#', '$', '%'].all fun s => upperChar s = [s]) = true := by
    decide +kernel
  simpa only [List.all_eq_true, decide_eq_true_eq] using rows

/-- A literal is a quoted character, or is read as a numeral. -/
theorem Denotes.numeral? {text : List Char} (h : Denotes text n) :
    (∃ q c, isQuote q = true ∧ text = [q, c, q] ∧ c.toNat = n) ∨
      numeral? (upper text) = some n := by
  have letter {l x : Char} (hl : l ∈ ['X', 'H', 'B']) (hx : x ∈ [l.toLower, l]) :
      upperChar x = [l] := (upperChar_letter l hl x hx).1
  cases h with
  | @character q c hq => exact .inl ⟨q, c, hq, rfl, rfl⟩
  | hexMark hx h =>
      right
      rw [upper_cons, upper_cons, upperChar_front '0' (by decide), letter (l := 'X') (by decide) hx]
      exact h.digits?
  | hexAmpersand hx h =>
      right
      rw [upper_cons, upper_cons, upperChar_front '&' (by decide), letter (l := 'H') (by decide) hx]
      exact h.digits?
  | hexHash h =>
      right
      rw [upper_cons, upperChar_front '#' (by decide)]
      exact h.digits?
  | hexDollar h =>
      right
      rw [upper_cons, upperChar_front '$' (by decide)]
      exact h.digits?
  | hexSuffix hc hx h =>
      right
      have read := h.digits?
      rw [upper_cons, upperChar_of_isDigit hc] at read
      rw [upper_append, upper_cons, upperChar_of_isDigit hc, upper_cons, letter (l := 'H') (by decide) hx]
      exact numeral?_hexSuffix hc read
  | binaryPercent h =>
      right
      rw [upper_cons, upperChar_front '%' (by decide)]
      exact h.digits?
  | binaryMark hx h =>
      right
      rw [upper_cons, upper_cons, upperChar_front '0' (by decide), letter (l := 'B') (by decide) hx]
      exact numeral?_binaryMark h.digits?
  | binarySuffix hx h =>
      right
      rw [upper_append, upper_cons, letter (l := 'B') (by decide) hx]
      exact numeral?_binarySuffix h.digits?
  | decimal h => exact .inr (numeral?_decimal h.digits?)

/-- No text that is read as a numeral is a quoted character. -/
theorem character?_of_numeral? {text : List Char} (h : numeral? (upper text) = some n) :
    character? text = none := by
  rw [Option.eq_none_iff_forall_ne_some]
  intro m hm
  obtain ⟨q, c, hq, rfl⟩ := exists_of_character hm
  have fixed : upperChar q = [q] := (isSteady_of_isQuote hq).fixed
  rw [upper_cons, fixed, List.singleton_append, numeral?_quote hq] at h
  contradiction

/-- No blank stands around quotation marks. -/
theorem trim_quoted {q : Char} (hq : isQuote q = true) (cs : List Char) :
    trim (q :: (cs ++ [q])) = q :: (cs ++ [q]) := by
  have plain := isBlank_of_isQuote hq
  refine trim_eq_self (by simp [trimStart, plain]) ?_
  rw [← List.cons_append]
  exact trimEnd_concat plain

/-- A digit is no blank. -/
theorem Numeral.plain (h : Numeral base cs n) : ∀ c ∈ cs, isBlank c = false := by
  intro c hc
  obtain ⟨d, -, hd⟩ := h.exists_digit hc
  have digit : (digit? c).isSome = true → isBlank c = false :=
    forall_ascii (P := fun c => (digit? c).isSome = true → isBlank c = false) (by decide +kernel)
      (h.ascii c hc)
  exact digit (by rw [hd, Option.isSome_some])

/-- No blank stands around a literal. -/
theorem Denotes.trim_eq {text : List Char} (h : Denotes text n) : trim text = text := by
  have letter {l x : Char} (hl : l ∈ ['X', 'H', 'B']) (hx : x ∈ [l.toLower, l]) :
      isBlank x = false := (upperChar_letter l hl x hx).2
  have behind {c : Char} {base n : Nat} {cs : List Char} (hc : isBlank c = false)
      (h : Numeral base cs n) : ∀ d ∈ c :: cs, isBlank d = false :=
    List.forall_mem_cons.mpr ⟨hc, h.plain⟩
  have front {x : Char} {base n : Nat} {cs : List Char} (hx : isBlank x = false)
      (h : Numeral base cs n) : ∀ c ∈ cs ++ [x], isBlank c = false :=
    List.forall_mem_append.mpr ⟨h.plain, List.forall_mem_singleton.mpr hx⟩
  cases h with
  | @character q c hq => exact trim_quoted hq [c]
  | hexMark hx h =>
      have mark := behind (letter (l := 'X') (by decide) hx) h
      exact trim_of_plain (List.forall_mem_cons.mpr ⟨by decide, mark⟩)
  | hexAmpersand hx h =>
      have mark := behind (letter (l := 'H') (by decide) hx) h
      exact trim_of_plain (List.forall_mem_cons.mpr ⟨by decide, mark⟩)
  | hexHash h | hexDollar h | binaryPercent h => exact trim_of_plain (behind (by decide) h)
  | hexSuffix _ hx h => exact trim_of_plain (front (letter (l := 'H') (by decide) hx) h)
  | binaryMark hx h =>
      have mark := behind (letter (l := 'B') (by decide) hx) h
      exact trim_of_plain (List.forall_mem_cons.mpr ⟨by decide, mark⟩)
  | binarySuffix hx h => exact trim_of_plain (front (letter (l := 'B') (by decide) hx) h)
  | decimal h => exact trim_of_plain h.plain

/-- A literal is read as the number it denotes, whatever blanks are around it. -/
theorem literal?_of_denotes {text : List Char} (h : Denotes (trim text) n) :
    literal? text = some n := by
  rw [Expr.literal?]
  obtain ⟨q, c, hq, ht, rfl⟩ | numeral := h.numeral?
  · simp [ht, character?, hq]
  · simp [character?_of_numeral? numeral, numeral]

/-! ## only literals are read -/

/-- Only the letter itself, in either case, becomes a letter of a mark in upper case. -/
theorem letter_of_upperAscii (h : c.toNat < 128) :
    ∀ l ∈ ['X', 'H', 'B'], upperAscii c = l → c ∈ [l.toLower, l] := by
  have row : (['X', 'H', 'B'].all fun l => upperAscii c = l → c ∈ [l.toLower, l]) = true :=
    forall_ascii (P := fun c => (['X', 'H', 'B'].all fun l =>
      upperAscii c = l → c ∈ [l.toLower, l]) = true) (by decide +kernel) h
  simpa only [List.all_eq_true, decide_eq_true_eq] using row

/-- Only the sign itself becomes a sign in front of numerals in upper case. -/
theorem front_of_upperAscii (h : c.toNat < 128) :
    ∀ s ∈ ['0', '&', '#', '$', '%'], upperAscii c = s → c = s := by
  have row : (['0', '&', '#', '$', '%'].all fun s => upperAscii c = s → c = s) = true :=
    forall_ascii (P := fun c => (['0', '&', '#', '$', '%'].all fun s =>
      upperAscii c = s → c = s) = true) (by decide +kernel) h
  simpa only [List.all_eq_true, decide_eq_true_eq] using row

/-- Only digits become digit signs in upper case. -/
theorem isDigit_of_upperAscii (h : c.toNat < 128) : isDigitSign (upperAscii c) = true → c.isDigit :=
  forall_ascii (P := fun c => isDigitSign (upperAscii c) = true → c.isDigit) (by decide +kernel) h

section

variable {text rest front : List Char} {sign letter : Char} (ascii : ∀ c ∈ text, c.toNat < 128)
include ascii

/-- A sign in front of a text in capital letters stands in front of the text. -/
theorem exists_of_map_sign (hs : sign ∈ ['0', '&', '#', '$', '%'])
    (h : text.map upperAscii = sign :: rest) :
    ∃ cs, text = sign :: cs ∧ rest = cs.map upperAscii ∧ ∀ c ∈ cs, c.toNat < 128 := by
  obtain ⟨a, cs, rfl, ha, hr⟩ := List.map_eq_cons_iff.mp h
  obtain ⟨first, others⟩ := List.forall_mem_cons.mp ascii
  exact ⟨cs, by rw [front_of_upperAscii first sign hs ha], hr.symm, others⟩

/-- So do a sign and a letter, but for the case of the letter. -/
theorem exists_of_map_mark (hs : sign ∈ ['0', '&', '#', '$', '%']) (hl : letter ∈ ['X', 'H', 'B'])
    (h : text.map upperAscii = sign :: letter :: rest) :
    ∃ x cs, text = sign :: x :: cs ∧ x ∈ [letter.toLower, letter] ∧ rest = cs.map upperAscii ∧
      ∀ c ∈ cs, c.toNat < 128 := by
  obtain ⟨tail, rfl, ht, others⟩ := exists_of_map_sign ascii hs h
  obtain ⟨x, cs, rfl, hx, hr⟩ := List.map_eq_cons_iff.mp ht.symm
  obtain ⟨first, others⟩ := List.forall_mem_cons.mp others
  exact ⟨x, cs, rfl, letter_of_upperAscii first letter hl hx, hr.symm, others⟩

/-- A letter at the end of a text in capital letters stands at the end of the text. -/
theorem exists_of_map_suffix (hl : letter ∈ ['X', 'H', 'B'])
    (h : text.map upperAscii = front ++ [letter]) :
    ∃ cs x, text = cs ++ [x] ∧ x ∈ [letter.toLower, letter] ∧ front = cs.map upperAscii ∧
      ∀ c ∈ cs, c.toNat < 128 := by
  obtain ⟨cs, suffix, rfl, hf, hs⟩ := List.map_eq_append_iff.mp h
  obtain ⟨x, rfl, hx⟩ := List.map_eq_singleton_iff.mp hs
  obtain ⟨others, last⟩ := List.forall_mem_append.mp ascii
  have mark := letter_of_upperAscii (last x (List.mem_singleton_self x)) letter hl hx
  exact ⟨cs, x, rfl, mark, hf.symm, others⟩

end

theorem numeral_of_map (ascii : ∀ c ∈ cs, c.toNat < 128)
    (h : digits? base (cs.map upperAscii) = some n) : Numeral base cs n :=
  (digits?_upper_iff ascii).mp (by rwa [upper_of_ascii ascii])

/-- A text that starts with a digit and is read by its end is a literal. -/
theorem denotes_of_digitInitial? {rest : List Char} (ascii : ∀ d ∈ c :: rest, d.toNat < 128)
    (hc : c.isDigit) (h : digitInitial? ((c :: rest).map upperAscii) = some n) :
    Denotes (c :: rest) n := by
  obtain ⟨front, he, read⟩ | ⟨back, he, read⟩ | ⟨front, he, read⟩ | read :=
    exists_of_digitInitial? h
  · obtain ⟨digits, x, ht, hx, rfl, front⟩ := exists_of_map_suffix ascii (by decide) he
    cases digits with
    | nil => rw [List.map_nil, digits?_nil] at read; cases read
    | cons d digits =>
        obtain ⟨rfl, rfl⟩ := List.cons_eq_cons.mp ht
        exact .hexSuffix hc hx (numeral_of_map front read)
  · obtain ⟨x, digits, ht, hx, rfl, others⟩ := exists_of_map_mark ascii (by decide) (by decide) he
    rw [ht]
    exact .binaryMark hx (numeral_of_map others read)
  · obtain ⟨digits, x, ht, hx, rfl, front⟩ := exists_of_map_suffix ascii (by decide) he
    rw [ht]
    exact .binarySuffix hx (numeral_of_map front read)
  · exact .decimal (numeral_of_map ascii read)

/-- An ASCII text that is read as a numeral is a literal, and denotes the number. -/
theorem denotes_of_numeral? {text : List Char} (ascii : ∀ c ∈ text, c.toNat < 128)
    (h : numeral? (upper text) = some n) : Denotes text n := by
  rw [upper_of_ascii ascii] at h
  unfold Expr.numeral? at h
  split at h
  case h_1 => cases h
  case h_2 heq =>
      obtain ⟨x, cs, rfl, hx, rfl, others⟩ := exists_of_map_mark ascii (by decide) (by decide) heq
      exact .hexMark hx (numeral_of_map others h)
  case h_3 heq =>
      obtain ⟨x, cs, rfl, hx, rfl, others⟩ := exists_of_map_mark ascii (by decide) (by decide) heq
      exact .hexAmpersand hx (numeral_of_map others h)
  case h_4 heq =>
      obtain ⟨cs, rfl, rfl, others⟩ := exists_of_map_sign ascii (by decide) heq
      exact .hexHash (numeral_of_map others h)
  case h_5 heq =>
      obtain ⟨cs, rfl, rfl, others⟩ := exists_of_map_sign ascii (by decide) heq
      exact .hexDollar (numeral_of_map others h)
  case h_6 heq =>
      obtain ⟨cs, rfl, rfl, others⟩ := exists_of_map_sign ascii (by decide) heq
      exact .binaryPercent (numeral_of_map others h)
  case h_7 heq =>
      rw [← heq] at h
      obtain ⟨c, rest, rfl, rfl, -⟩ := List.map_eq_cons_iff.mp heq
      split at h
      case isTrue sign =>
          have digit := isDigit_of_upperAscii (ascii c List.mem_cons_self) sign
          exact denotes_of_digitInitial? ascii digit h
      case isFalse => cases h

/-- An ASCII text that is read is a literal between blanks, and denotes the number. -/
theorem denotes_of_literal? {text : List Char} (ascii : ∀ c ∈ text, c.toNat < 128)
    (h : literal? text = some n) : Denotes (trim text) n := by
  rw [Expr.literal?, Option.or_eq_some_iff] at h
  obtain quoted | ⟨-, numeral⟩ := h
  · obtain ⟨q, c, hq, ht⟩ := exists_of_character quoted
    rw [ht, character?, if_pos ⟨hq, rfl⟩] at quoted
    cases quoted
    rw [ht]
    exact .character hq
  · exact denotes_of_numeral? (fun c hc => ascii c (mem_of_mem_trim hc)) numeral

/-! ## numerals of a number -/

/-- A further digit. -/
theorem Numeral.concat {d : Nat} (h : Numeral base cs n) (hd : digit? c = some d) (lt : d < base) :
    Numeral base (cs ++ [c]) (n * base + d) := by
  obtain ⟨ds, ne, hm, hlt, rfl⟩ := h
  refine ⟨ds ++ [d], List.concat_ne_nil d ds, ?_, ?_, ?_⟩
  · rw [List.map_append, List.map_append, hm, List.map_singleton, hd, List.map_singleton]
  · exact List.forall_mem_append.mpr ⟨hlt, List.forall_mem_singleton.mpr lt⟩
  · rw [List.reverse_append, List.reverse_singleton, List.singleton_append, Nat.ofDigits_cons]
    simp [Nat.mul_comm, Nat.add_comm]

theorem Numeral.single {d : Nat} (hd : digit? c = some d) (lt : d < base) :
    Numeral base [c] d :=
  ⟨[d], List.cons_ne_nil d [], by rw [List.map_singleton, hd, List.map_singleton],
    List.forall_mem_singleton.mpr lt, by simp⟩

/-- Leading zeros change nothing. -/
theorem Numeral.zeros (positive : 0 < base) (h : Numeral base cs n) (k : Nat) :
    Numeral base (List.replicate k '0' ++ cs) n := by
  induction k with
  | zero => exact h
  | succ k ih =>
      obtain ⟨ds, ne, hm, hlt, rfl⟩ := ih
      refine ⟨0 :: ds, List.cons_ne_nil 0 ds, ?_, List.forall_mem_cons.mpr ⟨positive, hlt⟩,
        Nat.ofDigits_reverse_zero_cons ds⟩
      rw [List.replicate_succ, List.cons_append, List.map_cons, List.map_cons, hm]
      rfl

theorem digit?_hexDigit : ∀ d < 16, digit? (hexDigit d) = some d := by decide

/-- Every number is denoted by digits in every base up to sixteen. -/
theorem exists_numeral (h2 : 2 ≤ base) (h16 : base ≤ 16) (n : Nat) : ∃ cs, Numeral base cs n := by
  induction n using Nat.strongRecOn with
  | ind n ih =>
      by_cases lt : n < base
      · exact ⟨_, .single (digit?_hexDigit n (by omega)) lt⟩
      · obtain ⟨cs, h⟩ := ih (n / base) (Nat.div_lt_self (by omega) h2)
        have below : n % base < base := Nat.mod_lt n (by omega)
        have next := h.concat (digit?_hexDigit (n % base) (by omega)) below
        rw [Nat.div_add_mod'] at next
        exact ⟨_, next⟩

/-- The hexadecimal digits of a number denote it. -/
theorem numeral_hexDigits (n : Nat) : Numeral 16 (hexDigits n) n := by
  fun_induction hexDigits n with
  | case1 n lt => exact .single (digit?_hexDigit n lt) lt
  | case2 n ge ih =>
      have next := ih.concat (digit?_hexDigit (n % 16) (by omega)) (by omega)
      rwa [Nat.div_add_mod'] at next

theorem toList_dollarHex (n : Nat) : (dollarHex n).toList = '$' :: hexDigits n := by
  have positive : ¬(n : Int) < 0 := by omega
  simp [dollarHex, hex, positive]

/-! ## the reader and the grammar -/

end Expr

end Z80Workbench
