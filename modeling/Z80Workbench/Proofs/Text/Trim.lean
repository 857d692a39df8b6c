import Mathlib.Data.List.DropRight
import Z80Workbench.Text.Blank

/-!
# Z80Workbench.Proofs.Text.Trim

Laws of trimming: what is trimmed has no blank at either end, so that trimming again changes
nothing, and no other character is lost.
-/

namespace Z80Workbench.Text

theorem trimEnd_eq_rdropWhile (cs : List Char) : trimEnd cs = cs.rdropWhile isBlank := rfl

/-- A text that starts with no blank keeps that start when its end is trimmed. -/
theorem trimStart_trimEnd {cs : List Char} (h : trimStart cs = cs) :
    trimStart (trimEnd cs) = trimEnd cs := by
  rw [trimStart, List.dropWhile_eq_self_iff] at h ⊢
  intro hl
  have front : trimEnd cs <+: cs := List.rdropWhile_prefix isBlank cs
  rw [front.getElem hl]
  exact h (Nat.lt_of_lt_of_le hl front.length_le)

/-- A text is trimmed if it is so at either end. -/
theorem trim_eq_self {cs : List Char} (hs : trimStart cs = cs) (he : trimEnd cs = cs) :
    trim cs = cs := by
  rw [trim, hs, he]

/-- A text without blanks is trimmed. -/
theorem trim_of_plain {cs : List Char} (h : ∀ c ∈ cs, isBlank c = false) : trim cs = cs := by
  refine trim_eq_self ?_ ?_
  · rw [trimStart, List.dropWhile_eq_self_iff]
    intro hl
    rw [h _ (List.getElem_mem hl)]
    exact Bool.false_ne_true
  · rw [trimEnd_eq_rdropWhile, List.rdropWhile_eq_self_iff]
    intro ne
    rw [h _ (List.getLast_mem ne)]
    exact Bool.false_ne_true

theorem trimStart_trim (cs : List Char) : trimStart (trim cs) = trim cs :=
  trimStart_trimEnd (List.dropWhile_idempotent _ _)

theorem trimEnd_trim (cs : List Char) : trimEnd (trim cs) = trim cs :=
  List.rdropWhile_idempotent _ _

/-- Trimming twice is trimming once. -/
theorem trim_trim (cs : List Char) : trim (trim cs) = trim cs :=
  trim_eq_self (trimStart_trim cs) (trimEnd_trim cs)

/-- A character that is no blank survives trimming. -/
theorem mem_trim {c : Char} {cs : List Char} (h : c ∈ cs) (hc : isBlank c = false) :
    c ∈ trim cs := by
  have drop : ∀ l : List Char, c ∈ l → c ∈ l.dropWhile isBlank := by
    intro l hl
    rw [← List.takeWhile_append_dropWhile (p := isBlank) (l := l), List.mem_append] at hl
    cases hl with
    | inl ht => rw [List.mem_takeWhile_imp ht] at hc; contradiction
    | inr hd => exact hd
  simp only [trim, trimEnd, trimStart, List.mem_reverse]
  exact drop _ (List.mem_reverse.mpr (drop cs h))

/-- Trimming drops blanks in front of what it leaves. -/
theorem exists_of_trim (cs : List Char) :
    ∃ lead trail, cs = lead ++ trim cs ++ trail ∧ ∀ c ∈ lead, isBlank c = true := by
  obtain ⟨trail, ht⟩ : trim cs <+: trimStart cs := List.rdropWhile_prefix isBlank _
  refine ⟨cs.takeWhile isBlank, trail, ?_, fun c hc => List.mem_takeWhile_imp hc⟩
  rw [List.append_assoc, ht, trimStart, List.takeWhile_append_dropWhile]

/-- Trimming adds no character. -/
theorem mem_of_mem_trim {c : Char} {cs : List Char} (h : c ∈ trim cs) : c ∈ cs :=
  (List.dropWhile_suffix isBlank).subset ((List.rdropWhile_prefix isBlank _).subset h)

theorem trimEnd_append {trail : List Char} (ht : ∀ c ∈ trail, isBlank c = true)
    (cs : List Char) : trimEnd (cs ++ trail) = trimEnd cs := by
  rw [trimEnd, trimEnd, List.reverse_append,
    List.dropWhile_append_of_pos fun c hc => ht c (List.mem_reverse.mp hc)]

/-- Blanks around a text do not matter. -/
theorem trim_around {lead trail : List Char} (hl : ∀ c ∈ lead, isBlank c = true)
    (ht : ∀ c ∈ trail, isBlank c = true) (cs : List Char) :
    trim (lead ++ cs ++ trail) = trim cs := by
  have front : trimStart (lead ++ cs ++ trail) = trimStart (cs ++ trail) := by
    rw [trimStart, trimStart, List.append_assoc, List.dropWhile_append_of_pos hl]
  have all : trimStart trail = [] := List.dropWhile_eq_nil_iff.mpr ht
  rw [trim, trim, front, trimStart, List.dropWhile_append]
  split
  case isTrue empty =>
      have none : trimStart cs = [] := List.isEmpty_iff.mp empty
      rw [none]
      exact congrArg trimEnd all
  case isFalse => exact trimEnd_append ht _

theorem trim_append {lead : List Char} (hl : ∀ c ∈ lead, isBlank c = true) (cs : List Char) :
    trim (lead ++ cs) = trim cs := by
  have around := trim_around hl (fun _ hc => absurd hc List.not_mem_nil) cs
  rwa [List.append_nil] at around

theorem trim_append_trail {trail : List Char} (ht : ∀ c ∈ trail, isBlank c = true)
    (cs : List Char) : trim (cs ++ trail) = trim cs :=
  trim_around (fun _ hc => absurd hc List.not_mem_nil) ht cs

/-- Trimming drops nothing but blanks. -/
theorem exists_around (cs : List Char) : ∃ lead trail, cs = lead ++ trim cs ++ trail ∧
    (∀ c ∈ lead, isBlank c = true) ∧ ∀ c ∈ trail, isBlank c = true := by
  refine ⟨cs.takeWhile isBlank, (trimStart cs).rtakeWhile isBlank, ?_,
    fun c hc => List.mem_takeWhile_imp hc, fun c hc => List.mem_rtakeWhile_imp hc⟩
  have back : trim cs ++ (trimStart cs).rtakeWhile isBlank = trimStart cs :=
    List.rdropWhile_append_rtakeWhile
  rw [List.append_assoc, back, trimStart, List.takeWhile_append_dropWhile]

/-- Nothing is trimmed off a text between two trimmed ones. -/
theorem trim_between {front back : List Char} (hf : trim front = front) (nf : front ≠ [])
    (hb : trim back = back) (nb : back ≠ []) (middle : List Char) :
    trim (front ++ middle ++ back) = front ++ middle ++ back := by
  have start : trimStart front = front := by rw [← hf, trimStart_trim]
  have stop : trimEnd back = back := by rw [← hb, trimEnd_trim]
  rw [trimStart, List.dropWhile_eq_self_iff] at start
  rw [trimEnd_eq_rdropWhile, List.rdropWhile_eq_self_iff] at stop
  refine trim_eq_self ?_ ?_
  · rw [trimStart, List.append_assoc, List.dropWhile_eq_self_iff]
    intro _
    have hl : 0 < front.length := List.length_pos_of_ne_nil nf
    rw [List.getElem_append_left hl]
    exact start hl
  · rw [trimEnd_eq_rdropWhile, List.rdropWhile_eq_self_iff]
    intro _
    rw [List.getLast_append_of_ne_nil _ nb]
    exact stop nb

theorem trim_eq_nil_iff {cs : List Char} : trim cs = [] ↔ ∀ c ∈ cs, isBlank c = true := by
  constructor
  · intro h c hc
    by_contra hb
    have mem := mem_trim hc (Bool.not_eq_true _ ▸ hb)
    rw [h] at mem
    exact List.not_mem_nil mem
  · intro h
    have all := trim_append h []
    rwa [List.append_nil] at all

/-- A text that starts with no blank starts with the same character when it is trimmed. -/
theorem exists_trim_cons {c : Char} (hc : isBlank c = false) (cs : List Char) :
    ∃ rest, trim (c :: cs) = c :: rest := by
  have start : trimStart (c :: cs) = c :: cs := by simp [trimStart, hc]
  have prefixed : trim (c :: cs) <+: c :: cs := by
    rw [trim, start]
    exact List.rdropWhile_prefix isBlank _
  obtain ⟨back, hb⟩ := prefixed
  cases ht : trim (c :: cs) with
  | nil =>
      have blank := trim_eq_nil_iff.mp ht c List.mem_cons_self
      rw [hc] at blank
      contradiction
  | cons d rest =>
      rw [ht, List.cons_append] at hb
      exact ⟨rest, by rw [(List.cons_eq_cons.mp hb).1]⟩

end Z80Workbench.Text
