import Z80Workbench.Proofs.Source.Labels
import Z80Workbench.Proofs.Text.Lines

/-!
# Z80Workbench.Proofs.Source.Comment

Comments.  What is left of a line without its comment holds no further comment, although it is
looked at from another start: the blanks in front of it are gone, and the letters AF in front of an
apostrophe are looked for among what is left.  So a line may lose its comment before it is read.
-/

namespace Z80Workbench.Source

open Text
open Z80Workbench.Expr (isQuote)

/-! ## marks -/

theorem spellsAf_of_isBlank {p q : Char} (h : isBlank p = true ∨ isBlank q = true) :
    spellsAf p q = false := by
  have letter (c : Char) (hc : isBlank c = true) :
      c ≠ 'A' ∧ c ≠ 'a' ∧ c ≠ 'F' ∧ c ≠ 'f' := by
    refine ⟨?_, ?_, ?_, ?_⟩ <;> (rintro rfl; exact absurd hc (by decide))
  cases h with
  | inl hp => simp [spellsAf, letter p hp]
  | inr hq => simp [spellsAf, letter q hq]

/-- A blank ends what is looked back at. -/
theorem marksFrom_second (quote : Option Char) {q q' : Char} (hq : isBlank q = true)
    (hq' : isBlank q' = true) (c : Char) (text : List Char) :
    marksFrom quote q c text = marksFrom quote q' c text := by
  cases text with
  | nil => rfl
  | cons d rest =>
      cases quote with
      | some mark => rfl
      | none =>
          simp only [marksFrom, spellsAf_of_isBlank (.inl hq), spellsAf_of_isBlank (.inl hq')]

/-- Whatever stands in front of a blank, the text behind it is marked alike. -/
theorem marksFrom_behind (quote : Option Char) {p q p' q' : Char} (hq : isBlank q = true)
    (hq' : isBlank q' = true) (text : List Char) :
    marksFrom quote p q text = marksFrom quote p' q' text := by
  cases text with
  | nil => rfl
  | cons c rest =>
      simp only [marksFrom, spellsAf_of_isBlank (.inr hq), spellsAf_of_isBlank (.inr hq'),
        marksFrom_second _ hq hq']

/-- Behind a space a text is marked as it is alone. -/
theorem marksFrom_space (p : Char) (text : List Char) : marksFrom none p ' ' text = marks text :=
  marksFrom_behind none (by decide) (by decide) text

/-- A blank at the start leaves the marks behind it as they are. -/
theorem marks_cons_of_isBlank {c : Char} (h : isBlank c = true) (text : List Char) :
    marks (c :: text) = ⟨c, true⟩ :: marks text := by
  have plain : isQuote c = false := by
    rw [← Bool.not_eq_true]
    intro hq
    rw [isQuote, Bool.or_eq_true, decide_eq_true_eq, decide_eq_true_eq] at hq
    obtain rfl | rfl := hq <;> exact absurd h (by decide)
  have start : isBlank ' ' = true := by decide
  simp only [marks, marksFrom, plain, Bool.false_and, Bool.false_eq_true, if_false]
  rw [marksFrom_behind none h start]

/-- The front of a text is marked as it is in the text. -/
theorem marksFrom_begins (quote : Option Char) (p q : Char) (front back : List Char) :
    marksFrom quote p q front <+: marksFrom quote p q (front ++ back) := by
  induction front generalizing quote p q with
  | nil => exact List.nil_prefix
  | cons c rest ih =>
      cases quote with
      | some mark => exact List.cons_prefix_cons.mpr ⟨rfl, ih _ _ _⟩
      | none =>
          simp only [List.cons_append, marksFrom]
          split <;> exact List.cons_prefix_cons.mpr ⟨rfl, ih _ _ _⟩

theorem length_marks (text : List Char) : (marks text).length = text.length := by
  rw [← List.length_map, map_char_marks]

/-! ## stripping -/

/-- The character starts no comment. -/
def Marked.isCode (m : Marked) : Bool := !(m.outside && m.char = ';')

theorem stripComment_eq (text : List Char) :
    stripComment text = trim (((marks text).takeWhile Marked.isCode).map (·.char)) := rfl

/-- No comment starts in the text. -/
def Uncommented (text : List Char) : Prop := ∀ m ∈ marks text, m.isCode = true

theorem stripComment_of_uncommented {text : List Char} (h : Uncommented text) :
    stripComment text = trim text := by
  rw [stripComment_eq, List.takeWhile_eq_self_iff.mpr h, map_char_marks]

theorem Uncommented.of_prefix {front text : List Char} (h : Uncommented text)
    (hf : front <+: text) : Uncommented front := by
  obtain ⟨back, rfl⟩ := hf
  exact fun m hm => h m ((marksFrom_begins none ' ' ' ' front back).subset hm)

theorem Uncommented.trimStart {text : List Char} (h : Uncommented text) :
    Uncommented (trimStart text) := by
  induction text with
  | nil => exact h
  | cons c rest ih =>
      cases hc : isBlank c with
      | false =>
          have keep : Text.trimStart (c :: rest) = c :: rest := by simp [Text.trimStart, hc]
          rwa [keep]
      | true =>
          have drop : Text.trimStart (c :: rest) = Text.trimStart rest := by
            simp [Text.trimStart, hc]
          rw [drop]
          refine ih fun m hm => h m ?_
          rw [marks_cons_of_isBlank hc]
          exact List.mem_cons_of_mem _ hm

theorem Uncommented.trim {text : List Char} (h : Uncommented text) : Uncommented (trim text) :=
  h.trimStart.of_prefix (List.rdropWhile_prefix isBlank _)

/-- What stands in front of the comment is the start of the text, and holds no comment. -/
theorem uncommented_takeWhile (text : List Char) :
    (((marks text).takeWhile Marked.isCode).map (·.char)) <+: text ∧
      Uncommented (((marks text).takeWhile Marked.isCode).map (·.char)) := by
  have whole : ((marks text).takeWhile Marked.isCode).map (·.char) ++
      ((marks text).dropWhile Marked.isCode).map (·.char) = text := by
    rw [← List.map_append, List.takeWhile_append_dropWhile, map_char_marks]
  refine ⟨⟨_, whole⟩, fun m hm => ?_⟩
  -- the marks of the front are as many as the marks that were taken, and are the same
  have front := marksFrom_begins none ' ' ' ' (((marks text).takeWhile Marked.isCode).map (·.char))
    (((marks text).dropWhile Marked.isCode).map (·.char))
  rw [whole] at front
  have taken : (marks text).takeWhile Marked.isCode <+: marks text := List.takeWhile_prefix _
  have same := List.prefix_of_prefix_length_le front taken
    (by rw [← marks, length_marks, List.length_map])
  exact List.mem_takeWhile_imp (same.subset hm)

/-- What is left of a text without its comment holds no comment. -/
theorem stripComment_stripComment (text : List Char) :
    stripComment (stripComment text) = stripComment text := by
  have kept := (uncommented_takeWhile text).2.trim
  rw [← stripComment_eq] at kept
  rw [stripComment_of_uncommented kept, stripComment_eq, trim_trim]

/-- What is left of a text without its comment stands in the text, behind blanks at most. -/
theorem exists_of_stripComment (text : List Char) :
    ∃ lead trail, text = lead ++ stripComment text ++ trail ∧ ∀ c ∈ lead, isBlank c = true := by
  obtain ⟨comment, hc⟩ := (uncommented_takeWhile text).1
  obtain ⟨lead, trail, ht, blank⟩ :=
    exists_of_trim (((marks text).takeWhile Marked.isCode).map (·.char))
  refine ⟨lead, trail ++ comment, ?_, blank⟩
  rw [← List.append_assoc, stripComment_eq, ← ht, hc]

/-! ## lines -/

/-- The line without its comment and the white space around it. -/
def withoutComment (line : String) : String := String.ofList (stripComment line.toList)

theorem withoutComment_withoutComment (line : String) :
    withoutComment (withoutComment line) = withoutComment line := by
  simp only [withoutComment, String.toList_ofList, stripComment_stripComment]

/-- The text whose lines are those of a text without their comments. -/
def withoutComments (source : String) : String :=
  String.join ((linesOf source).map fun line => withoutComment line ++ "\n")

theorem linesOf_withoutComments (source : String) :
    linesOf (withoutComments source) = (linesOf source).map withoutComment := by
  have unbroken : ∀ line ∈ linesOf source, ∀ c ∈ line.toList, isLineBreak c = false := by
    intro line hl
    obtain ⟨cs, hc, rfl⟩ := List.mem_map.mp hl
    rw [String.toList_ofList]
    exact not_isLineBreak_of_mem_splitLines hc
  rw [withoutComments]
  generalize linesOf source = lines at unbroken
  induction lines with
  | nil => rfl
  | cons line rest ih =>
      have kept : ∀ c ∈ stripComment line.toList, isLineBreak c = false :=
        fun c hc => unbroken line List.mem_cons_self c (mem_of_mem_stripComment hc)
      have first :
          (String.join ((line :: rest).map fun line => withoutComment line ++ "\n")).toList =
            stripComment line.toList ++ '\n' ::
              (String.join (rest.map fun line => withoutComment line ++ "\n")).toList := by
        simp [withoutComment]
      rw [linesOf, first, splitLines_append kept, List.map_cons, List.map_cons, ← linesOf,
        ih fun other ho => unbroken other (List.mem_cons_of_mem line ho)]
      rfl

/-- Lines that are equal without their comments are read as the same line. -/
theorem parseLine?_of_withoutComment {t u : String} (h : withoutComment t = withoutComment u)
    (number : Nat) :
    parseLine? number u = (parseLine? number t).map fun line => { line with text := u } := by
  have code : stripComment t.toList = stripComment u.toList := String.ofList_injective h
  rw [parseLine?, parseLine?, code]
  split <;> rfl

end Z80Workbench.Source
