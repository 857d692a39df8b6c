import Z80Workbench.Proofs.Assembly.Rewording
import Z80Workbench.Proofs.Source.Comment
import Z80Workbench.Proofs.Text.Sign

/-!
# Z80Workbench.Proofs.Assembly.Comments

Comments say nothing to the passes.  Blocks are expanded, lines are laid out and assembled, and
steps are listed as if all comments had been cut off first.  Only the search for a cartridge header
looks at the text with its comments: what it finds in the code of a line it finds in either text,
but it also finds a header in a comment.
-/

namespace Z80Workbench

open Text Source

/-! ## cartridge headers -/

namespace Cartridge

variable {cs : List Char}

theorem skip?_append {small large : Char} {rest : List Char} (h : skip? small large cs = some rest)
    (back : List Char) : skip? small large (cs ++ back) = some (rest ++ back) := by
  cases cs with
  | nil => cases h
  | cons c cs =>
      simp only [skip?] at h
      split at h
      case isTrue hc =>
          cases h
          rw [List.cons_append, skip?, if_pos hc]
      case isFalse => cases h

theorem any_head?_append {p : Char → Bool} (h : cs.head?.any p = true) (back : List Char) :
    (cs ++ back).head?.any p = true := by
  cases cs with
  | nil => cases h
  | cons c cs => exact h

theorem startsWithMark_append (h : startsWithMark cs = true) (back : List Char) :
    startsWithMark (cs ++ back) = true := by
  match cs, h with
  | c :: a :: b :: rest, h =>
      simp only [List.cons_append, startsWithMark] at h ⊢
      by_cases hq : Expr.isQuote c = true
      · rw [if_pos hq, Bool.and_eq_true] at h ⊢
        exact ⟨h.1, any_head?_append h.2 back⟩
      · rwa [if_neg hq] at h ⊢

/-- A header at the start of a text is one at the start of all that begins with the text. -/
theorem startsWithHeader_append (h : startsWithHeader cs = true) (back : List Char) :
    startsWithHeader (cs ++ back) = true := by
  unfold startsWithHeader at h ⊢
  cases hs : (skip? 'd' 'D' cs).bind (skip? 'b' 'B') with
  | none =>
      rw [hs] at h
      cases h
  | some rest =>
      obtain ⟨between, hd, hb⟩ := Option.bind_eq_some_iff.mp hs
      rw [hs, Bool.and_eq_true] at h
      have full : trimStart rest ≠ [] := by
        intro he
        rw [he] at h
        exact absurd h.2 (by decide)
      have front : trimStart (rest ++ back) = trimStart rest ++ back := by
        rw [trimStart, List.dropWhile_append, if_neg (by simpa [trimStart] using full)]
        rfl
      rw [skip?_append hd, Option.bind_some, skip?_append hb, Bool.and_eq_true, front]
      exact ⟨any_head?_append h.1 back, startsWithMark_append h.2 back⟩

theorem holdsHeader_append {inWord : Bool} (h : holdsHeader inWord cs = true) (back : List Char) :
    holdsHeader inWord (cs ++ back) = true := by
  induction cs generalizing inWord with
  | nil => cases h
  | cons c cs ih =>
      rw [List.cons_append, holdsHeader, Bool.or_eq_true, Bool.and_eq_true] at *
      cases h with
      | inl h => exact .inl ⟨h.1, startsWithHeader_append h.2 back⟩
      | inr h => exact .inr (ih h)

/-- A header is found behind any text that does not end within a word. -/
theorem holdsHeader_behind {front : List Char} {inWord : Bool} (h : holdsHeader false cs = true)
    (apart : (front.getLast?.map isWordChar).getD inWord = false) :
    holdsHeader inWord (front ++ cs) = true := by
  induction front generalizing inWord with
  | nil =>
      have apart : inWord = false := apart
      rwa [apart]
  | cons c front ih =>
      rw [List.cons_append, holdsHeader, Bool.or_eq_true]
      refine .inr (ih ?_)
      cases front with
      | nil => exact apart
      | cons d front =>
          obtain ⟨last, hl⟩ := Option.isSome_iff_exists.mp
            (List.getLast?_isSome.mpr (List.cons_ne_nil d front))
          rw [List.getLast?_cons_cons, hl] at apart
          rwa [hl]

theorem not_isWordChar_of_isBlank {c : Char} (h : isBlank c = true) : isWordChar c = false := by
  rw [← Bool.not_eq_true]
  intro hw
  rw [isBlank_of_isWordChar hw] at h
  cases h

/-- A header in the code of a line is found in the line. -/
theorem holdsHeader_of_stripComment (h : holdsHeader false (stripComment cs) = true) :
    holdsHeader false cs = true := by
  obtain ⟨lead, trail, hc, blank⟩ := exists_of_stripComment cs
  rw [hc]
  refine holdsHeader_append (holdsHeader_behind h ?_) trail
  cases hl : lead.getLast? with
  | none => rfl
  | some c => exact not_isWordChar_of_isBlank (blank c (List.mem_of_getLast? hl))

/-- A header in a line is found in the text that joins the line to others. -/
theorem holdsHeader_joinLines {lines : List String} {line : String} (h : line ∈ lines)
    (header : holdsHeader false line.toList = true) :
    holdsHeader false (joinLines lines).toList = true := by
  induction lines with
  | nil => exact absurd h List.not_mem_nil
  | cons first rest ih =>
      cases rest with
      | nil =>
          rw [joinLines, String.intercalate_singleton]
          exact List.mem_singleton.mp h ▸ header
      | cons next more =>
          have joined : (joinLines (first :: next :: more)).toList =
              (first.toList ++ ['\n']) ++ (joinLines (next :: more)).toList := by
            simp [joinLines, String.intercalate_cons_cons]
          rw [joined]
          cases List.mem_cons.mp h with
          | inl he =>
              rw [List.append_assoc]
              exact holdsHeader_append (he ▸ header) _
          | inr hm => exact holdsHeader_behind (ih hm) (by simp; decide)

end Cartridge

/-! ## lines that differ in their comments -/

/-- The texts are equal without their comments. -/
def SameCode (t u : String) : Prop := withoutComment t = withoutComment u

theorem SameCode.refl (t : String) : SameCode t t := rfl

/-- The lines are equal but for their texts. -/
def SourceLine.SameReading (l m : SourceLine) : Prop := ∃ text, m = { l with text := text }

theorem Source.parseLine?_sameReading {t u : String} (h : SameCode t u) (number : Nat) :
    Option.Rel SourceLine.SameReading (parseLine? number t) (parseLine? number u) := by
  rw [parseLine?_of_withoutComment h]
  cases parseLine? number t with
  | none => exact .none
  | some line => exact .some ⟨u, rfl⟩

theorem SourceLine.SameReading.alike {l m : SourceLine} (h : l.SameReading m) : l.Alike m := by
  obtain ⟨text, rfl⟩ := h
  exact ⟨rfl, rfl, rfl, .refl _⟩

theorem Repeat.readsAlike_of_sameCode (t u : String) (h : SameCode t u) : ReadsAlike t u := by
  intro number
  have hr := Source.parseLine?_sameReading h number
  generalize parseLine? number t = l, parseLine? number u = m at hr ⊢
  cases hr with
  | none => exact .none
  | some hlm => exact .some hlm.alike

namespace Analysis

variable {source other : String}

/-- Steps quote what the comments leave. -/
theorem steps_of_sameCode (h : List.Forall₂ SameCode (linesOf source) (linesOf other))
    (settings : Settings) (file : String) :
    (ofSource settings source file).steps = (ofSource settings other file).steps := by
  have parsed := parsed_rel (fun _ _ => Source.parseLine?_sameReading)
    (lines_rel SameCode.refl Repeat.readsAlike_of_sameCode h settings file)
  have symbols : (ofSource settings source file).layout.symbols =
      (ofSource settings other file).layout.symbols :=
    (ofSource_alike SameCode.refl Repeat.readsAlike_of_sameCode h settings file).symbols
  rw [steps_ofSource, steps_ofSource, symbols]
  simpa only [List.map_id] using Step.map_ofLines_eq_of_forall₂ (f := id) parsed
    (fun _ _ hlm => hlm.alike.operation) fun l m hlm id => by
      obtain ⟨text, rfl⟩ := hlm
      rfl

/-- A header in the code of an expanded line is found in both texts. -/
theorem holdsCartridgeHeader_of_code {a : Analysis}
    (code : a.lines.any (fun line =>
      Cartridge.holdsHeader false (withoutComment line).toList) = true) :
    a.holdsCartridgeHeader = true := by
  obtain ⟨line, hm, header⟩ := List.any_eq_true.mp code
  rw [withoutComment, String.toList_ofList] at header
  exact Cartridge.holdsHeader_joinLines hm (Cartridge.holdsHeader_of_stripComment header)

/-- Lines with the same code hold the same headers in it. -/
theorem headers_of_sameCode {ts us : List String} (h : List.Forall₂ SameCode ts us) :
    ts.any (fun line => Cartridge.holdsHeader false (withoutComment line).toList) =
      us.any fun line => Cartridge.holdsHeader false (withoutComment line).toList := by
  induction h with
  | nil => rfl
  | cons htu _ ih => rw [List.any_cons, List.any_cons, ih, htu]

/-- **Comments are inert.**  Take any source text, and cut the comment off every line.  The symbols,
labels and constants, the addresses and bytes of the lines, the image and its variables, the steps,
the findings and the entry line stay as they were.  A cartridge header that stands in the code of
one expanded line is detected in either text; only one that is looked for across a line end, or is
written in a comment, may come or go with the comments. -/
theorem ofSource_withoutComments (settings : Settings) {source bare : String}
    (h : linesOf bare = (linesOf source).map withoutComment) (file : String) :
    (ofSource settings bare file).symbols = (ofSource settings source file).symbols ∧
    (ofSource settings bare file).labels = (ofSource settings source file).labels ∧
    (ofSource settings bare file).constants = (ofSource settings source file).constants ∧
    (ofSource settings bare file).layout.addresses =
      (ofSource settings source file).layout.addresses ∧
    (ofSource settings bare file).image.lineBytes =
      (ofSource settings source file).image.lineBytes ∧
    (ofSource settings bare file).memory = (ofSource settings source file).memory ∧
    (ofSource settings bare file).image.namedData =
      (ofSource settings source file).image.namedData ∧
    (ofSource settings bare file).steps = (ofSource settings source file).steps ∧
    (ofSource settings bare file).findings = (ofSource settings source file).findings ∧
    (ofSource settings bare file).entryLine = (ofSource settings source file).entryLine ∧
    ((ofSource settings source file).lines.any
        (fun line => Cartridge.holdsHeader false (withoutComment line).toList) = true →
      (ofSource settings bare file).holdsCartridgeHeader = true ∧
        (ofSource settings source file).holdsCartridgeHeader = true) := by
  have same : List.Forall₂ SameCode (linesOf bare) (linesOf source) := by
    rw [h, List.forall₂_map_left_iff]
    exact List.forall₂_same.mpr fun line _ => withoutComment_withoutComment line
  have alike := ofSource_alike SameCode.refl Repeat.readsAlike_of_sameCode same settings file
  have headers := headers_of_sameCode
    (lines_rel SameCode.refl Repeat.readsAlike_of_sameCode same settings file)
  refine ⟨alike.symbols, alike.labels, alike.constants, alike.addresses, alike.lineBytes,
    alike.memory, alike.namedData, steps_of_sameCode same settings file, alike.findings,
    alike.entryLine, fun header => ⟨?_, holdsCartridgeHeader_of_code header⟩⟩
  exact holdsCartridgeHeader_of_code (headers.trans header)

/-- Comments behind a header, on a block, within quotes and on a line of their own. -/
def commented : String :=
  "START: DB \"AB\" ; a header\n REPEAT 2 ; \"twice\n LD A,';' ; a mark\n ENDR\n; the end"

/-- A text whose comments are cut off keeps its steps and its header. -/
theorem ofSource_withoutComments_commented :
    (ofSource {} (withoutComments commented) "").steps = (ofSource {} commented "").steps ∧
    (ofSource {} commented "").steps.length = 2 ∧
    (ofSource {} (withoutComments commented) "").holdsCartridgeHeader = true ∧
    (ofSource {} commented "").holdsCartridgeHeader = true := by
  have header : (ofSource {} commented "").lines.any
      (fun line => Cartridge.holdsHeader false (withoutComment line).toList) = true := by
    decide +kernel
  have steps : (ofSource {} commented "").steps.length = 2 := by decide +kernel
  obtain ⟨-, -, -, -, -, -, -, same, -, -, detected⟩ :=
    ofSource_withoutComments {} (linesOf_withoutComments commented) ""
  exact ⟨same, steps, detected header⟩

/-- A header in a comment, and one that is torn by a comment. -/
theorem header_in_comment :
    (ofSource {} "; DB \"AB\"\n" "").holdsCartridgeHeader = true ∧
    (ofSource {} (withoutComments "; DB \"AB\"\n") "").holdsCartridgeHeader = false ∧
    (ofSource {} "DB ; torn\n\"AB\"\n" "").holdsCartridgeHeader = false ∧
    (ofSource {} (withoutComments "DB ; torn\n\"AB\"\n") "").holdsCartridgeHeader = true := by
  decide +kernel

end Analysis

end Z80Workbench
