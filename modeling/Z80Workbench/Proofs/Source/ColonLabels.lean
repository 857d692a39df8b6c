import Z80Workbench.Assembly.Layout
import Z80Workbench.Machine.Execute
import Z80Workbench.Proofs.Source.Comment
import Z80Workbench.Proofs.Source.KeptLabels

/-!
# Z80Workbench.Proofs.Source.ColonLabels

Colon labels in front of a line.  A label holds no quotation mark and no semicolon, and the space
behind its colon ends what an apostrophe looks back at; so the line behind it loses the same
comment, and is read as it would be alone.  Only a single word is not: alone it is a bare label,
and behind a colon label an operation.
-/

namespace Z80Workbench

namespace Source

open Text
open Z80Workbench.Expr (isQuote)

/-! ## comments behind a label -/

/-- What holds no quotation mark lies outside quotes, and a space starts the marks anew. -/
theorem marks_append_of_unquoted {front : List Char} (h : ∀ c ∈ front, isQuote c = false)
    (back : List Char) :
    marks (front ++ ' ' :: back) =
      front.map (⟨·, true⟩) ++ ⟨' ', true⟩ :: marks back := by
  have all (p q : Char) : marksFrom none p q (front ++ ' ' :: back) =
      front.map (⟨·, true⟩) ++ ⟨' ', true⟩ :: marks back := by
    induction front generalizing p q with
    | nil =>
        have plain : isQuote ' ' = false := by decide
        simp [marksFrom, plain, marksFrom_space]
    | cons c rest ih =>
        obtain ⟨first, others⟩ := List.forall_mem_cons.mp h
        simp [marksFrom, first, ih others]
  exact all ' ' ' '

variable {label : List Char}

/-- A label and its colon hold no quotation mark, no blank, and nothing that starts a comment. -/
theorem plain_of_mem_label (h : isIdentifier label = true) {c : Char} (hc : c ∈ label ++ [':']) :
    isQuote c = false ∧ isBlank c = false ∧ Marked.isCode ⟨c, true⟩ = true := by
  rw [List.mem_append, List.mem_singleton] at hc
  obtain hc | rfl := hc
  · have continues := continues_of_isIdentifier h c hc
    have plain := plain_of_continuesLabel continues
    have other : c ≠ ';' := by
      rintro rfl
      exact plain.2 (by decide)
    exact ⟨isQuote_of_continuesLabel continues, plain.1, by simp [Marked.isCode, other]⟩
  · decide

/-- Behind a label stands what is left of a line without its comment. -/
theorem stripComment_label (h : isIdentifier label = true) {text : List Char}
    (hne : stripComment text ≠ []) :
    ∃ gap, stripComment (label ++ ':' :: ' ' :: text) =
        label ++ ':' :: ' ' :: (gap ++ stripComment text) ∧ ∀ c ∈ gap, isBlank c = true := by
  obtain ⟨gap, trail, split, blank, trailing⟩ :=
    exists_around (((marks text).takeWhile Marked.isCode).map (·.char))
  rw [← stripComment_eq] at split
  have code : ((marks (label ++ ':' :: ' ' :: text)).takeWhile Marked.isCode).map (·.char) =
      (label ++ [':']) ++ (' ' :: gap) ++ stripComment text ++ trail := by
    have marked := marks_append_of_unquoted (fun _ hc => (plain_of_mem_label h hc).1) text
    rw [List.append_assoc, List.singleton_append] at marked
    have outside : ∀ m ∈ (label ++ [':']).map (⟨·, true⟩), Marked.isCode m = true :=
      List.forall_mem_map.mpr fun _ hc => (plain_of_mem_label h hc).2.2
    have space : Marked.isCode ⟨' ', true⟩ = true := by decide
    rw [marked, List.takeWhile_append_of_pos outside, List.takeWhile_cons_of_pos space,
      List.map_append, List.map_cons, split, List.map_map]
    simp [Function.comp_def]
  have kept : trim (stripComment text) = stripComment text := trim_trim _
  have solid : trim (label ++ [':']) = label ++ [':'] :=
    trim_of_plain fun _ hc => (plain_of_mem_label h hc).2.1
  refine ⟨gap, ?_, blank⟩
  rw [stripComment_eq, code, trim_append_trail trailing,
    trim_between solid (by simp) kept hne]
  simp

/-- A label in front of a line is taken off first. -/
theorem colonLabels_label (h : isIdentifier label = true) {text : List Char}
    (hne : stripComment text ≠ []) :
    colonLabels (stripComment (label ++ ':' :: ' ' :: text)) =
      (label :: (colonLabels (stripComment text)).1, (colonLabels (stripComment text)).2) := by
  obtain ⟨gap, split, blank⟩ := stripComment_label h hne
  have single : (' ' :: (gap ++ stripComment text)).head? ≠ some ':' := by simp
  have found := colonLabel?_append h single
  have front : trimStart (stripComment text) = stripComment text := trimStart_trim _
  have rest : trimStart (' ' :: (gap ++ stripComment text)) = stripComment text := by
    have all : ∀ c ∈ ' ' :: gap, isBlank c = true :=
      List.forall_mem_cons.mpr ⟨by decide, blank⟩
    rw [← List.cons_append, trimStart, List.dropWhile_append_of_pos all]
    exact front
  rw [rest] at found
  rw [split, colonLabels_of_colonLabel found]

/-! ## lines behind labels -/

/-- Behind colon labels a line with an operation is read as it would be without them. -/
theorem statement_of_operation {labelled : Bool} {cs : List Char}
    (h : (statement labelled cs).operation ≠ none) : statement true cs = statement labelled cs := by
  by_cases hne : cs = []
  · rw [hne]
    rfl
  cases labelled with
  | true => rfl
  | false =>
      rw [statement_of_ne_nil hne] at h ⊢
      rw [statement_of_ne_nil hne]
      split
      case isTrue => rfl
      case isFalse unknown =>
          split
          case isTrue => rfl
          case isFalse single =>
              -- a single word would be a bare label
              simp [unknown, single] at h

theorem stripComment_ne_nil {number : Nat} {text : String} {line : SourceLine}
    (h : parseLine? number text = some line) : stripComment text.toList ≠ [] := by
  intro none
  rw [parseLine?, none] at h
  cases h

/-- A line is read alike under any number. -/
theorem parseLine?_renumber {number : Nat} {text : String} {line : SourceLine}
    (h : parseLine? number text = some line) (other : Nat) :
    parseLine? other text = some { line with number := other } := by
  have hne := stripComment_ne_nil h
  rw [parseLine?_of_stripComment rfl hne, Option.some.injEq] at h
  rw [parseLine?_of_stripComment rfl hne, ← h]

/-- A label in front of a line with an operation is its first label. -/
theorem parseLine?_cons {label text : String} (h : isIdentifier label.toList = true) {number : Nat}
    {line : SourceLine} (hl : parseLine? number text = some line) (acts : line.operation ≠ none) :
    parseLine? number (label ++ ": " ++ text) = some
      { line with text := label ++ ": " ++ text, labels := upperString label :: line.labels } := by
  have hne := stripComment_ne_nil hl
  have chars : (label ++ ": " ++ text).toList = label.toList ++ ':' :: ' ' :: text.toList := by
    simp
  obtain ⟨gap, split, -⟩ := stripComment_label h hne
  have parts := colonLabels_label h hne
  rw [parseLine?_of_stripComment rfl hne, Option.some.injEq] at hl
  rw [← hl] at acts
  have found := statement_of_operation acts
  rw [← hl, parseLine?_of_stripComment rfl (by rw [chars, split]; simp), chars, parts]
  simp [found, upperString]

/-- Colon labels in front of a text, with a space behind each. -/
def labelled (labels : List String) (text : String) : String :=
  String.join (labels.map (· ++ ": ")) ++ text

theorem labelled_cons (label : String) (rest : List String) (text : String) :
    labelled (label :: rest) text = label ++ ": " ++ labelled rest text := by
  simp [labelled, String.append_assoc]

theorem parseLine?_of_labelled {labels : List String}
    (h : ∀ label ∈ labels, isIdentifier label.toList = true) {number : Nat} {text : String}
    {line : SourceLine} (hl : parseLine? number text = some line) (acts : line.operation ≠ none) :
    parseLine? number (labelled labels text) = some
      { line with
        text := labelled labels text
        labels := labels.map upperString ++ line.labels } := by
  induction labels with
  | nil =>
      have same : labelled [] text = text := by simp [labelled]
      have whole := hl
      rw [parseLine?_of_stripComment rfl (stripComment_ne_nil hl), Option.some.injEq] at whole
      rw [same, hl, ← whole]
      rfl
  | cons label rest ih =>
      obtain ⟨first, others⟩ := List.forall_mem_cons.mp h
      rw [labelled_cons, parseLine?_cons first (ih others) acts]
      rfl

end Source

/-! ## what a line does -/

/-- The layout of a line has nothing to do with its labels. -/
theorem Extent.ofLine_congr {line other : SourceLine} (operation : line.operation = other.operation)
    (args : line.args = other.args) (scope : Expr.Scope) (address : Int) :
    ofLine scope address line = ofLine scope address other := by
  rw [ofLine, ofLine, operation, args]

/-- Nor has its execution. -/
theorem Machine.runLine_congr {line other : SourceLine}
    (operation : line.operation = other.operation) (args : line.args = other.args)
    (env : Env) (m : Machine) (address : Option Nat) :
    m.runLine env line address = m.runLine env other address := by
  simp only [runLine, SourceLine.isExecutable, SourceLine.instruction?, operation, args]

namespace Source

open Text (upperString)

/-- Colon labels are transparent: a line with an operation is read, executed and laid out behind
them as it is without them, and has them as its first labels. -/
theorem parseLine?_labelled {labels : List String}
    (identifiers : ∀ label ∈ labels, isIdentifier label.toList = true) {number : Nat}
    {text : String} {line : SourceLine} (read : parseLine? number text = some line)
    (acts : line.operation ≠ none) :
    ∃ behind, parseLine? number (labelled labels text) = some behind ∧
      behind.labels = labels.map upperString ++ line.labels ∧
      behind.operation = line.operation ∧ behind.args = line.args ∧
      (∀ env (m : Machine) address,
        m.runText env (labelled labels text) address = m.runText env text address) ∧
      ∀ scope address, Extent.ofLine scope address behind = Extent.ofLine scope address line := by
  refine ⟨_, parseLine?_of_labelled identifiers read acts, rfl, rfl, rfl, fun env m address => ?_,
    fun scope address => Extent.ofLine_congr rfl rfl scope address⟩
  have first := parseLine?_renumber read 1
  rw [Machine.runText, Machine.runText, first, parseLine?_of_labelled identifiers first acts]
  exact Machine.runLine_congr rfl rfl env m address

/-- A bare label in quotes, which holds a semicolon. -/
def quotedLabel : SourceLine :=
  ⟨7, "'a;b' LD A,2 ; set", ["'A;B'"], some (.mnemonic .ld), "A,2"⟩

/-- Behind the label AF, an apostrophe still opens a quote. -/
theorem parseLine?_labelled_quoted :
    parseLine? 7 "'a;b' LD A,2 ; set" = some quotedLabel ∧ quotedLabel.operation ≠ none ∧
      ∃ behind, parseLine? 7 "two$: AF: 'a;b' LD A,2 ; set" = some behind ∧
        behind.labels = ["TWO$", "AF", "'A;B'"] ∧ behind.operation = some (.mnemonic .ld) ∧
        behind.args = "A,2" := by
  have read : parseLine? 7 "'a;b' LD A,2 ; set" = some quotedLabel := by decide +kernel
  have identifiers : ∀ label ∈ ["two$", "AF"], isIdentifier label.toList = true := by
    decide +kernel
  obtain ⟨behind, again, labels, operation, args, -⟩ :=
    parseLine?_labelled identifiers read (by decide)
  exact ⟨read, by decide, behind, again, labels.trans (by decide +kernel), operation, args⟩

end Source

end Z80Workbench
