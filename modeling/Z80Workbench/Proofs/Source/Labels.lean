import Z80Workbench.Proofs.Text.Trim
import Z80Workbench.Source.Line

/-!
# Z80Workbench.Proofs.Source.Labels

Where the labels of a line come from: each is the upper case of a part of the line's text.
-/

namespace Z80Workbench.Source

open Text

/-- What is left without the comment is part of the text. -/
theorem mem_of_mem_stripComment {c : Char} {text : List Char} (h : c ∈ stripComment text) :
    c ∈ text := by
  have h := mem_of_mem_trim h
  obtain ⟨m, hm, he⟩ := List.mem_map.mp h
  rw [← map_char_marks text]
  exact List.mem_map.mpr ⟨m, (List.takeWhile_sublist _).subset hm, he⟩

theorem mem_of_mem_afterColon {c : Char} {cs rest : List Char} (h : afterColon? cs = some rest)
    (hc : c ∈ rest) : c ∈ cs := by
  unfold afterColon? at h
  split at h
  · cases h
    exact List.mem_cons_of_mem _ (List.mem_cons_of_mem _ ((List.dropWhile_suffix _).subset hc))
  · cases h
    exact List.mem_cons_of_mem _ ((List.dropWhile_suffix _).subset hc)
  · contradiction

/-- A colon label and the text behind it are parts of the text. -/
theorem mem_of_mem_colonLabel {c : Char} {cs label rest : List Char}
    (h : colonLabel? cs = some (label, rest)) : (c ∈ label → c ∈ cs) ∧ (c ∈ rest → c ∈ cs) := by
  cases cs with
  | nil => contradiction
  | cons d more =>
      rw [colonLabel?] at h
      split at h
      · obtain ⟨after, ha, he⟩ := Option.map_eq_some_iff.mp h
        cases he
        refine ⟨fun hl => ?_, fun hr => ?_⟩
        · cases List.mem_cons.mp hl with
          | inl hd => rw [hd]; exact List.mem_cons_self
          | inr hm => exact List.mem_cons_of_mem d ((List.takeWhile_sublist _).subset hm)
        · exact List.mem_cons_of_mem d
            ((List.dropWhile_suffix _).subset (mem_of_mem_afterColon ha hr))
      · contradiction

/-- Colon labels are taken off one by one. -/
theorem colonLabels_of_colonLabel {cs label rest : List Char}
    (h : colonLabel? cs = some (label, rest)) :
    colonLabels cs = (label :: (colonLabels rest).1, (colonLabels rest).2) := by
  rw [colonLabels]
  split
  case h_1 hn =>
      rw [h] at hn
      cases hn
  case h_2 hs =>
      rw [h] at hs
      cases hs
      rfl

theorem colonLabels_of_none {cs : List Char} (h : colonLabel? cs = none) :
    colonLabels cs = ([], cs) := by
  rw [colonLabels]
  split
  case h_1 => rfl
  case h_2 hs =>
      rw [h] at hs
      cases hs

/-- All colon labels and the text behind them are parts of the text. -/
theorem mem_of_mem_colonLabels (c : Char) (cs : List Char) :
    (∀ label ∈ (colonLabels cs).1, c ∈ label → c ∈ cs) ∧ (c ∈ (colonLabels cs).2 → c ∈ cs) := by
  fun_induction colonLabels cs with
  | case1 cs h => exact ⟨fun _ hl => absurd hl List.not_mem_nil, id⟩
  | case2 cs label rest h more ih =>
      obtain ⟨hlabel, hrest⟩ := mem_of_mem_colonLabel (c := c) h
      refine ⟨fun found hf hc => ?_, fun hc => hrest (ih.2 hc)⟩
      cases List.mem_cons.mp hf with
      | inl he => exact hlabel (he ▸ hc)
      | inr hm => exact hrest (ih.1 found hm hc)

/-- A bare label is part of the text. -/
theorem mem_of_mem_statement {c : Char} {labelled : Bool} {cs label : List Char}
    (h : (statement labelled cs).label = some label) (hc : c ∈ label) : c ∈ cs := by
  have word : ∀ {label : List Char}, some (headWord cs).1 = some label → c ∈ label → c ∈ cs := by
    intro label he hc
    rw [Option.some.injEq] at he
    rw [← he] at hc
    exact (List.takeWhile_sublist _).subset hc
  unfold statement at h
  split at h
  · contradiction
  · dsimp only at h
    split at h
    · contradiction
    · split at h
      · split at h
        · exact word h hc
        · contradiction
      · split at h
        · contradiction
        · exact word h hc

/-- Every label of a line is the upper case of a part of its text. -/
theorem exists_of_mem_labels {number : Nat} {text : String} {line : SourceLine}
    (h : parseLine? number text = some line) {label : String} (hl : label ∈ line.labels) :
    ∃ raw, label = String.ofList (upper raw) ∧ ∀ c ∈ raw, c ∈ text.toList := by
  unfold parseLine? at h
  split at h
  · contradiction
  · cases h
    obtain ⟨raw, hr, rfl⟩ := List.mem_map.mp hl
    refine ⟨raw, rfl, fun c hc => mem_of_mem_stripComment ?_⟩
    have parts := mem_of_mem_colonLabels c (stripComment text.toList)
    cases List.mem_append.mp hr with
    | inl hcolon => exact parts.1 raw hcolon hc
    | inr hbare => exact parts.2 (mem_of_mem_statement (Option.mem_toList.mp hbare) hc)

end Z80Workbench.Source
