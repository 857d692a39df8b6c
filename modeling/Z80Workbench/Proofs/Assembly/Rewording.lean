import Z80Workbench.Proofs.Assembly.Alike
import Z80Workbench.Proofs.Walk.Numbering

/-!
# Z80Workbench.Proofs.Assembly.Rewording

Sources that differ in the wording of their lines.  If the lines of two sources are read alike one
by one, blocks open and close at the same lines, with equal counts, so that both are expanded to
lines that are read alike; and then both have the same analysis, but for the texts that quote
lines.
-/

namespace Z80Workbench

open Text Source

/-! ## markers and constants -/

namespace Repeat

/-- Lines of text that no pass tells apart: both are blank, or they are read as alike lines. -/
def ReadsAlike (t u : String) : Prop :=
  ∀ number, Option.Rel SourceLine.Alike (parseLine? number t) (parseLine? number u)

/-- Markers with the same labels, and with the same count if they open a block. -/
inductive Marker.Alike : Marker → Marker → Prop
  | opening (labels : List String) {count count' : String}
      (h : ∀ scope, (Expr.ofString count).value? scope = (Expr.ofString count').value? scope) :
      Alike (.opening labels count) (.opening labels count')
  | closing (labels : List String) : Alike (.closing labels) (.closing labels)
  | plain : Alike .plain .plain

variable {t u : String}

theorem marker_alike (h : ReadsAlike t u) : (marker t).Alike (marker u) := by
  have hr := h 1
  unfold marker
  generalize parseLine? 1 t = l, parseLine? 1 u = m at hr
  cases hr with
  | none => exact .plain
  | some hlm =>
      simp only [SourceLine.directive?, hlm.operation, hlm.labels]
      split
      · exact .opening _ hlm.args.value
      · exact .opening _ hlm.args.value
      · exact .closing _
      · exact .plain

theorem addConstant_alike (h : ReadsAlike t u) (constants : Symbols) :
    addConstant constants t = addConstant constants u := by
  have hr := h 1
  unfold addConstant
  generalize parseLine? 1 t = l, parseLine? 1 u = m at hr
  cases hr with
  | none => rfl
  | some hlm => simp only [hlm.operation, hlm.labels, Expr.ofString, hlm.args.value]

/-! ## rounds -/

variable {T : String → String → Prop}

/-- Lines of the same origin whose texts are related. -/
structure LineRel (T : String → String → Prop) (x y : OriginLine) : Prop where
  text : T x.text y.text
  origin : x.origin = y.origin

/-- Open blocks whose lines are related. -/
structure BlockRel (T : String → String → Prop) (x y : OpenBlock) : Prop where
  origin : x.origin = y.origin
  copies : x.copies = y.copies
  depth : x.depth = y.depth
  body : List.Forall₂ (LineRel T) x.body y.body

/-- Rounds whose lines are related, with equally many errors. -/
structure RoundRel (T : String → String → Prop) (x y : Round) : Prop where
  output : List.Forall₂ (LineRel T) x.output y.output
  block : Option.Rel (BlockRel T) x.block y.block
  changed : x.changed = y.changed
  errors : x.errors.length = y.errors.length

theorem forall₂_keptLabels (refl : ∀ text, T text text) (labels : List String) (origin : Nat) :
    List.Forall₂ (LineRel T) (keptLabels labels origin) (keptLabels labels origin) :=
  List.forall₂_same.mpr fun line _ => ⟨refl line.text, rfl⟩

theorem forall₂_copies {xs ys : List OriginLine} (h : List.Forall₂ (LineRel T) xs ys) (n : Nat) :
    List.Forall₂ (LineRel T) (List.replicate n xs).flatten (List.replicate n ys).flatten := by
  induction n with
  | zero => exact .nil
  | succ n ih =>
      rw [List.replicate_succ, List.flatten_cons, List.replicate_succ, List.flatten_cons]
      exact List.rel_append h ih

namespace RoundRel

variable {r s : Round} {x y : OriginLine}

theorem copyBlock (h : RoundRel T r s) {b c : OpenBlock} (hb : BlockRel T b c) :
    RoundRel T (r.copyBlock b) (s.copyBlock c) where
  output := by
    simp only [Round.copyBlock, hb.copies]
    exact List.rel_append (forall₂_copies hb.body _) h.output
  block := .none
  changed := h.changed
  errors := h.errors

theorem openBlock (refl : ∀ text, T text text) (h : RoundRel T r s) (settings : Settings)
    (constants : Symbols) (labels : List String) {count count' : String}
    (hc : ∀ scope, (Expr.ofString count).value? scope = (Expr.ofString count').value? scope)
    (origin : Nat) :
    RoundRel T (r.openBlock settings constants labels count origin)
      (s.openBlock settings constants labels count' origin) := by
  have output := List.rel_append (forall₂_keptLabels refl labels origin) h.output
  unfold Round.openBlock
  rw [hc]
  split
  · exact ⟨output, .some ⟨rfl, rfl, rfl, .nil⟩, rfl, h.errors⟩
  · exact ⟨output, .some ⟨rfl, rfl, rfl, .nil⟩, rfl, congrArg (· + 1) h.errors⟩

/-- A line leads related rounds to related rounds. -/
theorem next (refl : ∀ text, T text text) (reads : ∀ t u, T t u → ReadsAlike t u)
    (settings : Settings) (constants : Symbols) (h : RoundRel T r s) (hl : LineRel T x y) :
    RoundRel T (r.next settings constants x) (s.next settings constants y) := by
  obtain ⟨output, block, changed, errors⟩ := r
  obtain ⟨output', block', changed', errors'⟩ := s
  have hm := marker_alike (reads _ _ hl.text)
  have kept (labels : List String) := forall₂_keptLabels refl labels y.origin
  unfold Round.next
  dsimp only
  rw [hl.origin]
  generalize marker x.text = m at hm
  generalize marker y.text = m' at hm
  cases h.block with
  | none =>
      cases hm with
      | opening labels hc => exact h.openBlock refl settings constants labels hc _
      | closing labels => exact ⟨List.rel_append (kept labels) h.output, .none, rfl, h.errors⟩
      | plain => exact ⟨.cons hl h.output, .none, h.changed, h.errors⟩
  | some hb =>
      have deeper (depth : Nat) {b c : OpenBlock} (hb : BlockRel T b c) :
          BlockRel T { b with depth := depth, body := x :: b.body }
            { c with depth := depth, body := y :: c.body } :=
        ⟨hb.origin, hb.copies, rfl, .cons hl hb.body⟩
      cases hm with
      | opening labels hc =>
          dsimp only
          rw [hb.depth]
          exact ⟨h.output, .some (deeper _ hb), h.changed, h.errors⟩
      | closing labels =>
          dsimp only
          rw [hb.depth]
          split
          · have copied := h.copyBlock hb
            have output := List.rel_append (kept labels) copied.output
            exact ⟨output, .none, copied.changed, copied.errors⟩
          · exact ⟨h.output, .some (deeper _ hb), h.changed, h.errors⟩
      | plain => exact ⟨h.output, .some ⟨hb.origin, hb.copies, hb.depth, .cons hl hb.body⟩,
          h.changed, h.errors⟩

theorem foldl (refl : ∀ text, T text text) (reads : ∀ t u, T t u → ReadsAlike t u)
    (settings : Settings) (constants : Symbols) (h : RoundRel T r s) {xs ys : List OriginLine}
    (hl : List.Forall₂ (LineRel T) xs ys) :
    RoundRel T (xs.foldl (Round.next settings constants) r)
      (ys.foldl (Round.next settings constants) s) := by
  induction hl generalizing r s with
  | nil => exact h
  | cons hxy _ ih => exact ih (h.next refl reads settings constants hxy)

theorem finish (h : RoundRel T r s) : RoundRel T r.finish s.finish := by
  obtain ⟨output, block, changed, errors⟩ := r
  obtain ⟨output', block', changed', errors'⟩ := s
  cases h.block with
  | none => exact h
  | some hb =>
      have copied := h.copyBlock hb
      exact ⟨copied.output, .none, copied.changed, congrArg (· + 1) copied.errors⟩

end RoundRel

/-! ## expansions -/

/-- Expansions whose lines are related, with equally many errors. -/
structure ExpansionRel (T : String → String → Prop) (x y : Expansion) : Prop where
  lines : List.Forall₂ (LineRel T) x.lines y.lines
  rounds : x.rounds = y.rounds
  errors : x.errors.length = y.errors.length

theorem expandRounds_rel (refl : ∀ text, T text text) (reads : ∀ t u, T t u → ReadsAlike t u)
    (settings : Settings) (constants : Symbols) (fuel : Nat) {x y : Expansion}
    (h : ExpansionRel T x y) :
    ExpansionRel T (expandRounds settings constants fuel x)
      (expandRounds settings constants fuel y) := by
  induction fuel generalizing x y with
  | zero => exact h
  | succ fuel ih =>
      have round : RoundRel T (expandOnce settings constants x.lines)
          (expandOnce settings constants y.lines) :=
        (RoundRel.foldl refl reads settings constants ⟨.nil, .none, rfl, rfl⟩ h.lines).finish
      simp only [expandRounds, round.changed]
      split
      · refine ih ⟨List.rel_reverse round.output, congrArg (· + 1) h.rounds, ?_⟩
        simp only [List.length_append, List.length_reverse, h.errors, round.errors]
      · exact h

theorem forall₂_numbered {ts us : List String} (h : List.Forall₂ T ts us) (first : Nat) :
    List.Forall₂ (LineRel T) ((ts.zipIdx first).map fun (text, number) => ⟨text, number⟩)
      ((us.zipIdx first).map fun (text, number) => ⟨text, number⟩) := by
  induction h generalizing first with
  | nil => exact .nil
  | cons htu _ ih => exact .cons ⟨htu, rfl⟩ (ih (first + 1))

/-- Texts with related lines are expanded to related lines, by equally many rounds. -/
theorem expand_rel (refl : ∀ text, T text text) (reads : ∀ t u, T t u → ReadsAlike t u)
    (settings : Settings) {source other : String}
    (h : List.Forall₂ T (linesOf source) (linesOf other)) :
    ExpansionRel T (expand settings source) (expand settings other) := by
  have constants : constants (linesOf source) = constants (linesOf other) :=
    foldl_eq_of_forall₂ h (fun z t u htu => addConstant_alike (reads t u htu) z) ∅
  simp only [expand, constants]
  exact expandRounds_rel refl reads settings _ _ ⟨forall₂_numbered h 1, rfl, rfl⟩

end Repeat

/-! ## analyses -/

open Repeat

theorem Source.parseLines_rel {R : SourceLine → SourceLine → Prop} {ts us : List String}
    (h : List.Forall₂ (fun t u => ∀ number, Option.Rel R (parseLine? number t)
      (parseLine? number u)) ts us) (first : Nat) :
    List.Forall₂ R (parseLines first ts) (parseLines first us) := by
  induction h generalizing first with
  | nil => exact .nil
  | @cons t u _ _ htu _ ih =>
      have hr := htu first
      rw [parseLines_cons, parseLines_cons]
      generalize parseLine? first t = l, parseLine? first u = m at hr
      cases hr with
      | none => exact ih _
      | some hlm => exact .cons hlm (ih _)

namespace Analysis

/-- Analyses that agree on all but the texts that quote source lines: on the symbols, labels and
constants, the places and bytes of lines, the image and its variables, the findings, the entry
line, the steps without operands and descriptions, and the numbers of errors and warnings. -/
structure Alike (a b : Analysis) : Prop where
  symbols : a.symbols = b.symbols
  labels : a.labels = b.labels
  constants : a.constants = b.constants
  addresses : a.layout.addresses = b.layout.addresses
  lineBytes : a.image.lineBytes = b.image.lineBytes
  memory : a.memory = b.memory
  namedData : a.image.namedData = b.image.namedData
  findings : a.findings = b.findings
  entryLine : a.entryLine = b.entryLine
  steps : a.steps.map Step.outline = b.steps.map Step.outline
  errors : a.diagnostics.errors.length = b.diagnostics.errors.length
  warnings : a.diagnostics.warnings.length = b.diagnostics.warnings.length

variable {T : String → String → Prop} {source other : String}

/-- The expanded lines of sources with related lines are related. -/
theorem lines_rel (refl : ∀ text, T text text) (reads : ∀ t u, T t u → ReadsAlike t u)
    (h : List.Forall₂ T (linesOf source) (linesOf other)) (settings : Settings) (file : String) :
    List.Forall₂ T (ofSource settings source file).lines (ofSource settings other file).lines :=
  List.rel_map (fun _ _ hxy => hxy.text) (expand_rel refl reads settings h).lines

theorem parsed_rel {R : SourceLine → SourceLine → Prop} {settings : Settings} {file : String}
    (reads : ∀ t u, T t u → ∀ number, Option.Rel R (parseLine? number t) (parseLine? number u))
    (h : List.Forall₂ T (ofSource settings source file).lines
      (ofSource settings other file).lines) :
    List.Forall₂ R (ofSource settings source file).parsed
      (ofSource settings other file).parsed := by
  rw [parsed_ofSource, parsed_ofSource]
  exact Source.parseLines_rel (h.imp reads) 1

theorem expansion_ofSource (settings : Settings) (source file : String) :
    (ofSource settings source file).expansion = expand settings source := rfl

/-- Sources whose lines are read alike have analyses that agree on all but quoted texts. -/
theorem ofSource_alike (refl : ∀ text, T text text) (reads : ∀ t u, T t u → ReadsAlike t u)
    (h : List.Forall₂ T (linesOf source) (linesOf other)) (settings : Settings) (file : String) :
    (ofSource settings source file).Alike (ofSource settings other file) := by
  have expansion := expand_rel refl reads settings h
  have parsed := parsed_rel reads (lines_rel refl reads h settings file)
  have layout : (ofSource settings source file).layout.Alike
      (ofSource settings other file).layout := Layout.ofLines_alike _ parsed
  have image : (ofSource settings source file).image.Alike
      (ofSource settings other file).image := Image.ofLayout_alike _ file layout
  have steps : (ofSource settings source file).steps.map Step.outline =
      (ofSource settings other file).steps.map Step.outline := by
    rw [steps_ofSource, steps_ofSource, layout.symbols]
    exact Step.outline_ofLines_alike parsed _
  refine ⟨layout.symbols, layout.labels, layout.constants, layout.addresses, image.lineBytes,
    image.memory, image.namedData, ?findings, ?entryLine, steps, ?errors, ?warnings⟩
  case findings => exact Aliasing.ofLayout_alike layout
  case entryLine =>
    have first : (ofSource settings source file).steps.head?.map (·.line) =
        (ofSource settings other file).steps.head?.map (·.line) := by
      have heads := congrArg (fun steps => steps.head?.map Step.line) steps
      simp only [List.head?_map, Option.map_map] at heads
      exact heads
    rw [entryLine, entryLine, first, labels, labels, layout.labels]
  case errors =>
    rw [diagnostics, diagnostics, List.length_append, List.length_append, image.errors,
      expansion_ofSource, expansion_ofSource, expansion.errors]
  case warnings =>
    simp only [diagnostics, image.warnings]

end Analysis

end Z80Workbench
