import Z80Workbench.Expr.Basic
import Z80Workbench.Proofs.Text.Trim
import Z80Workbench.Source.Line

/-!
# Z80Workbench.Proofs.Expr.Growth

What becomes of the value of an expression while its scope grows.  A line is sized when only the
names of the lines before it are known and encoded when all of them are, so a value that was there
early must be the value found in the end.

The delicate case is a text that can be read in two ways, as one name and as a sum.  A sum with a
value must not turn into a name later on: `value?_mono` asks that only identifiers have values in
the larger scope, and an identifier holds no sign.
-/

namespace Z80Workbench.Expr

open Text
open Source (isIdentifier startsLabel continuesLabel)

namespace Scope

/-- The larger scope gives every name of the smaller one the same value. -/
def Extends (larger smaller : Scope) : Prop :=
  ∀ ⦃name value⦄, smaller.value? name = some value → larger.value? name = some value

end Scope

/-- Of the names that an expression can hold, a resolver knows only identifiers. -/
def KnowsIdentifiers (resolve : String → Option Int) : Prop :=
  ∀ ⦃text name value⦄, Atom.read text = .name name → resolve name = some value →
    isIdentifier name.toList

/-! ## names as they are read -/

theorem Atom.read_trim (text : List Char) : read (trim text) = read text := by
  simp only [read, literal?, trim_trim]

/-- A name is the upper case of the text without the blanks around it. -/
theorem Atom.toList_of_read {text : List Char} {name : String} (h : read text = .name name) :
    name.toList = upper (trim text) := by
  unfold read at h
  split at h
  · contradiction
  · split at h
    · contradiction
    · injection h with h
      rw [← h, String.toList_ofList]

/-! ## identifiers hold no operator -/

/-- A character that is its own upper case survives in the upper case of a text. -/
theorem mem_upper {c : Char} {cs : List Char} (h : c ∈ cs) (hc : upperChar c = [c]) :
    c ∈ upper cs :=
  List.mem_flatMap.mpr ⟨c, h, by rw [hc]; exact List.mem_singleton_self c⟩

/-- Every character of an identifier can stand in one. -/
theorem startsLabel_or_continuesLabel {c : Char} {cs : List Char} (h : isIdentifier cs)
    (hc : c ∈ cs) : startsLabel c = true ∨ continuesLabel c = true := by
  cases cs with
  | nil => contradiction
  | cons d rest =>
      rw [isIdentifier, Bool.and_eq_true, List.all_eq_true] at h
      cases List.mem_cons.mp hc with
      | inl he => exact .inl (he ▸ h.1)
      | inr hr => exact .inr (h.2 c hr)

/-- An operator or a quotation mark is no blank, its own upper case, and no part of a label. -/
theorem operator_plain : ∀ c ∈ ['+', '-', '*', '\'', '"'],
    isBlank c = false ∧ upperChar c = [c] ∧ startsLabel c = false ∧ continuesLabel c = false := by
  have row : (['+', '-', '*', '\'', '"'].all fun c => isBlank c = false ∧ upperChar c = [c] ∧
      startsLabel c = false ∧ continuesLabel c = false) = true := by
    decide +kernel
  simpa only [List.all_eq_true, decide_eq_true_eq] using row

/-- A text that is read as an identifier holds no operator and no quotation mark. -/
theorem not_mem_of_isIdentifier {c : Char} {text : List Char}
    (h : isIdentifier (upper (trim text))) (hc : c ∈ ['+', '-', '*', '\'', '"']) : c ∉ text := by
  intro hm
  obtain ⟨hb, hu, hs, hk⟩ := operator_plain c hc
  have hl := startsLabel_or_continuesLabel h (mem_upper (mem_trim hm hb) hu)
  rw [hs, hk] at hl
  exact hl.elim Bool.false_ne_true Bool.false_ne_true

/-! ## the sum that an identifier is read as -/

/-- A text without signs and quotation marks is one piece. -/
theorem pieces_of_plain {negative : Bool} {text : List Char}
    (h : ∀ c ∈ text, isQuote c = false ∧ c ≠ '+' ∧ c ≠ '-') :
    pieces none negative text = [⟨negative, text⟩] := by
  induction text with
  | nil => rfl
  | cons c rest ih =>
      obtain ⟨hq, hp, hm⟩ := h c List.mem_cons_self
      rw [pieces, ih fun d hd => h d (List.mem_cons_of_mem c hd)]
      simp [hq, hp, hm, Piece.push]

/-- An identifier, read as a sum, is that one name. -/
theorem terms_of_identifier {text : List Char} {name : String} (ha : Atom.read text = .name name)
    (hi : isIdentifier name.toList) : (read text).terms = some [⟨false, [.name name]⟩] := by
  rw [Atom.toList_of_read ha] at hi
  have absent : ∀ c ∈ ['+', '-', '*', '\'', '"'], c ∉ text :=
    fun c hc => not_mem_of_isIdentifier hi hc
  have plain : ∀ c ∈ text, isQuote c = false ∧ c ≠ '+' ∧ c ≠ '-' := by
    intro c hc
    refine ⟨?_, ?_, ?_⟩
    · rw [isQuote, Bool.or_eq_false_iff, decide_eq_false_iff_not, decide_eq_false_iff_not]
      exact ⟨fun he => absent c (by simp [he]) hc, fun he => absent c (by simp [he]) hc⟩
    · exact fun he => absent c (by simp [he]) hc
    · exact fun he => absent c (by simp [he]) hc
  have hne : trim text ≠ [] := by
    intro he
    rw [he] at hi
    contradiction
  have hstar : '*' ∉ trim text := fun hm => absent '*' (by simp) (mem_of_mem_trim hm)
  simp [read, pieces_of_plain plain, termsOf, hne, Piece.term, factors, hstar, Atom.read_trim, ha]

/-! ## growing scopes -/

variable {smaller larger : Scope}

theorem Atom.value?_mono (h : larger.Extends smaller) {a : Atom} {v : Int}
    (ha : a.value? smaller = some v) : a.value? larger = some v := by
  cases a with
  | number n => exact ha
  | name text => exact h ha
  | blank => contradiction

theorem Term.product?_mono (h : larger.Extends smaller) {as : List Atom} {v : Int}
    (ha : product? smaller as = some v) : product? larger as = some v := by
  induction as generalizing v with
  | nil => exact ha
  | cons a rest ih =>
      simp only [product?, Option.bind_eq_bind, Option.bind_eq_some_iff] at ha ⊢
      obtain ⟨x, hx, y, hy, hv⟩ := ha
      exact ⟨x, Atom.value?_mono h hx, y, ih hy, hv⟩

theorem Term.value?_mono (h : larger.Extends smaller) {t : Term} {v : Int}
    (ht : t.value? smaller = some v) : t.value? larger = some v := by
  simp only [value?, Option.map_eq_some_iff] at ht ⊢
  obtain ⟨n, hn, hv⟩ := ht
  exact ⟨n, product?_mono h hn, hv⟩

theorem Term.sum?_mono (h : larger.Extends smaller) {ts : List Term} {v : Int}
    (ht : sum? smaller ts = some v) : sum? larger ts = some v := by
  induction ts generalizing v with
  | nil => exact ht
  | cons t rest ih =>
      simp only [sum?, Option.bind_eq_bind, Option.bind_eq_some_iff] at ht ⊢
      obtain ⟨x, hx, y, hy, hv⟩ := ht
      exact ⟨x, value?_mono h hx, y, ih hy, hv⟩

/-- A value that an expression has does not change while its scope grows by identifiers. -/
theorem value?_mono (h : larger.Extends smaller) (known : KnowsIdentifiers larger.value?)
    {text : List Char} {n : Nat} (hn : (read text).value? smaller = some n) :
    (read text).value? larger = some n := by
  unfold value? at hn ⊢
  cases hw : (read text).whole.value? smaller with
  | some v =>
      rw [hw] at hn
      rw [Atom.value?_mono h hw]
      exact hn
  | none =>
      rw [hw] at hn
      obtain ⟨total, ht, hv⟩ := Option.map_eq_some_iff.mp hn
      obtain ⟨ts, hts, hsum⟩ := Option.bind_eq_some_iff.mp ht
      cases hl : (read text).whole.value? larger with
      | none =>
          show ((read text).terms.bind (Term.sum? larger)).map word = some n
          rw [hts, Option.bind_some, Term.sum?_mono h hsum, Option.map_some, hv]
      | some v =>
          -- A name that only the larger scope knows: as a sum it had no value before either.
          exfalso
          cases ha : Atom.read text with
          | number k => simp [read, ha, Atom.value?] at hw
          | blank => simp [read, ha, Atom.value?] at hl
          | name name =>
              have hl' : larger.value? name = some v := by simpa [read, ha, Atom.value?] using hl
              have hw' : smaller.value? name = none := by simpa [read, ha, Atom.value?] using hw
              rw [terms_of_identifier ha (known ha hl'), Option.some.injEq] at hts
              rw [← hts] at hsum
              simp [Term.sum?, Term.value?, Term.product?, Atom.value?, hw'] at hsum

end Z80Workbench.Expr
