import Z80Workbench.Proofs.Assembly.Symbols

/-!
# Z80Workbench.Proofs.Assembly.Declarations

Where names are declared.  If no two lines bind the same name, every label has the address of the
line that declares it, and the symbols are listed in the order of the lines, so that the first of
some symbols is declared before the others.
-/

namespace Z80Workbench

namespace Layout

namespace Scan

variable {fallback : String → Option Int} {scan : Scan} {line : SourceLine}

/-- A step declares the labels of its line, unless the line defines constants. -/
theorem labels_next (fallback : String → Option Int) (scan : Scan) (line : SourceLine) :
    (scan.next fallback line).labels =
      if (scan.placement fallback line).isEqu then scan.labels
      else line.labels.foldl (fun table label => table.insert label line.number) scan.labels := by
  simp only [next, bind, Placement.isEqu, line_placement, decide_eq_true_eq]
  split
  · split <;> rfl
  · rfl

/-- Every name is listed once. -/
structure Tidy (scan : Scan) : Prop where
  symbols : scan.symbols.keys.Nodup
  labels : scan.labels.keys.Nodup

theorem tidy_start : start.Tidy := ⟨List.nodup_nil, List.nodup_nil⟩

theorem Tidy.next (h : scan.Tidy) (line : SourceLine) : (scan.next fallback line).Tidy := by
  obtain ⟨value, symbols, -⟩ := exists_symbols_next fallback scan line
  constructor
  · rw [symbols]
    exact Table.nodup_keys_foldl h.symbols _
  · rw [labels_next]
    split
    · exact h.labels
    · exact Table.nodup_keys_foldl h.labels _

theorem Tidy.foldl (h : scan.Tidy) (lines : List SourceLine) :
    (lines.foldl (Scan.next fallback) scan).Tidy := by
  induction lines generalizing scan with
  | nil => exact h
  | cons line rest ih => exact ih (h.next line)

/-- The label is declared on a line that has its value as address. -/
def Declares (scan : Scan) (name : String) (number : Nat) : Prop :=
  ∃ p ∈ scan.placed, p.isEqu = false ∧ p.line.number = number ∧ name ∈ p.line.labels ∧
    ∃ address : Nat, p.address = some address ∧ scan.symbols.get? name = some (address : Int)

/-- Labels are declared, and symbols that are labels are listed in the order of their lines. -/
structure Ordered (scan : Scan) : Prop where
  declared : ∀ name number, scan.labels.get? name = some number → scan.Declares name number
  order : scan.symbols.keys.Pairwise fun first second => ∀ n k,
    scan.labels.get? first = some n → scan.labels.get? second = some k → n ≤ k

theorem ordered_start : start.Ordered := ⟨nofun, List.Pairwise.nil⟩

/-- A line that is no constant has an address, and its names are its labels. -/
theorem address_placement (h : (scan.placement fallback line).isEqu = false) :
    (scan.placement fallback line).address =
        some (word (Extent.ofLine ⟨scan.symbols, fallback⟩ scan.counter line).address) ∧
      (scan.placement fallback line).names = line.labels := by
  rw [Placement.isEqu, line_placement, decide_eq_false_iff_not] at h
  simp [placement, Placement.ofExtent, Placement.names, h]

/-- What is declared stays so if the next line does not bind its name. -/
theorem Declares.next {name : String} {number : Nat} (h : scan.Declares name number)
    (other : name ∉ (scan.placement fallback line).names) :
    (scan.next fallback line).Declares name number := by
  obtain ⟨p, hp, plain, hn, hl, address, ha, hv⟩ := h
  obtain ⟨value, bound⟩ := symbols_next fallback scan line
  refine ⟨p, List.mem_cons_of_mem _ hp, plain, hn, hl, address, ha, ?_⟩
  rw [bound, if_neg other, hv]

/-- The next line binds its labels to its address. -/
theorem get?_next_of_label (sound : scan.Sound) {name : String}
    (plain : (scan.placement fallback line).isEqu = false) (hn : name ∈ line.labels) :
    ∃ address : Nat, (scan.placement fallback line).address = some address ∧
      (scan.next fallback line).symbols.get? name = some (address : Int) := by
  obtain ⟨value, symbols, address⟩ := exists_symbols_next fallback scan line
  obtain ⟨lies, names⟩ := address_placement plain
  obtain ⟨⟨low, high⟩, -⟩ : IsAddress value ∧ _ :=
    address plain ▸ Extent.isAddress_ofLine sound.counter line
  refine ⟨_, lies, ?_⟩
  rw [symbols, Table.get?_foldl_insert, names, if_pos hn, ← address plain, word]
  congr 1
  omega

/-- The next line declares its labels. -/
theorem declares_next (sound : scan.Sound) {name : String}
    (plain : (scan.placement fallback line).isEqu = false) (hn : name ∈ line.labels) :
    (scan.next fallback line).Declares name line.number :=
  ⟨scan.placement fallback line, List.mem_cons_self, plain, by rw [line_placement],
    by rwa [line_placement], get?_next_of_label sound plain hn⟩

theorem Ordered.next (h : scan.Ordered) (sound : scan.Sound) (listed : scan.Listed)
    (new : ∀ p ∈ scan.placed, ∀ name ∈ p.names, name ∉ (scan.placement fallback line).names)
    (later : ∀ p ∈ scan.placed, p.line.number < line.number) :
    (scan.next fallback line).Ordered := by
  have unbound (name : String) (hk : name ∈ scan.symbols.keys) :
      name ∉ (scan.placement fallback line).names := by
    obtain ⟨value, hv⟩ := Option.isSome_iff_exists.mp ((Table.mem_keys_iff _ _).mp hk)
    obtain ⟨p, hp, hn⟩ := listed hv
    exact new p hp name hn
  have symbol (name : String) (number : Nat) (hl : scan.labels.get? name = some number) :
      name ∈ scan.symbols.keys := by
    obtain ⟨value, hv⟩ := sound.labels name number hl
    exact (Table.mem_keys_iff _ _).mpr (by simp [hv])
  obtain ⟨value, symbols, -⟩ := exists_symbols_next fallback scan line
  cases constant : (scan.placement fallback line).isEqu with
  | true =>
      have labels : (scan.next fallback line).labels = scan.labels := by
        rw [labels_next, if_pos constant]
      constructor
      · intro name number hl
        rw [labels] at hl
        exact (h.declared name number hl).next (unbound name (symbol name number hl))
      · rw [labels, symbols]
        refine Table.pairwise_keys_foldl h.order (fun a _ b hb n k _ hk => ?_)
          fun a _ b hb n k _ hk => ?_
        · exact absurd hb (unbound b (symbol b k hk))
        · exact absurd hb (unbound b (symbol b k hk))
  | false =>
      have labels (name : String) : (scan.next fallback line).labels.get? name =
          if name ∈ line.labels then some line.number else scan.labels.get? name := by
        rw [labels_next, constant, if_neg Bool.false_ne_true, Table.get?_foldl_insert]
      have names := (address_placement constant).2
      rw [names] at unbound
      constructor
      · intro name number hl
        rw [labels] at hl
        by_cases hn : name ∈ line.labels
        · rw [if_pos hn] at hl
          cases hl
          exact declares_next sound constant hn
        · rw [if_neg hn] at hl
          exact (h.declared name number hl).next (names ▸ hn)
      · rw [symbols, names]
        refine Table.pairwise_keys_foldl (h.order.imp_of_mem fun ha hb old n k hn hk => ?_)
          (fun a ha b hb n k hn hk => ?_) fun a ha b hb n k hn hk => ?_
        · rw [labels, if_neg (unbound _ ha)] at hn
          rw [labels, if_neg (unbound _ hb)] at hk
          exact old n k hn hk
        · rw [labels, if_neg (unbound a ha)] at hn
          rw [labels, if_pos hb] at hk
          cases hk
          obtain ⟨p, hp, -, rfl, -⟩ := h.declared a n hn
          exact Nat.le_of_lt (later p hp)
        · rw [labels, if_pos ha] at hn
          rw [labels, if_pos hb] at hk
          cases hn
          cases hk
          exact Nat.le_refl _

theorem Ordered.foldl (h : scan.Ordered) (sound : scan.Sound) (listed : scan.Listed)
    {lines : List SourceLine}
    (once : (lines.foldl (Scan.next fallback) scan).placed.Pairwise
      fun q p => ∀ name ∈ p.names, name ∉ q.names)
    (later : ∀ p ∈ scan.placed, ∀ line ∈ lines, p.line.number < line.number)
    (numbered : lines.Pairwise (·.number < ·.number)) :
    (lines.foldl (Scan.next fallback) scan).Ordered := by
  induction lines generalizing scan with
  | nil => exact h
  | cons line rest ih =>
      obtain ⟨first, more⟩ := List.pairwise_cons.mp numbered
      have front := once.sublist (placed_suffix (scan.next fallback line) rest).sublist
      rw [placed_next] at front
      refine ih (h.next sound listed (fun p hp name hn => ?_) fun p hp => ?_) (sound.next line)
        (listed.next line) once (fun p hp other ho => ?_) more
      · exact List.rel_of_pairwise_cons front hp name hn
      · exact later p hp line List.mem_cons_self
      · rw [placed_next] at hp
        cases List.mem_cons.mp hp with
        | inl he =>
            rw [he, line_placement]
            exact first other ho
        | inr hp => exact later p hp other (List.mem_cons_of_mem line ho)

end Scan

variable {fallback : String → Option Int} {lines : List SourceLine} {name : String} {number : Nat}

/-- Every name is listed once among the symbols, and once among the labels. -/
theorem tidy_ofLines : (lines.foldl (Scan.next fallback) Scan.start).Tidy :=
  Scan.tidy_start.foldl lines

/-- A label that no other line binds keeps the address of its line. -/
theorem get?_of_label (once : (ofLines fallback lines).BindsOnce) {p : Placement}
    (hp : p ∈ (ofLines fallback lines).placements) (plain : p.isEqu = false)
    (hn : name ∈ p.line.labels) : ∃ address : Nat, p.address = some address ∧
      (ofLines fallback lines).symbols.get? name = some (address : Int) := by
  obtain ⟨before, line, after, rfl, rfl⟩ := exists_of_mem_placements hp
  rw [Scan.line_placement] at hn
  obtain ⟨address, lies, bound⟩ :=
    Scan.get?_next_of_label (Scan.sound_start.foldl before) plain hn
  refine ⟨address, lies, symbols_extend once (List.append_cons before line after) ?_⟩
  rw [List.foldl_append]
  exact bound

section

variable (once : (ofLines fallback lines).BindsOnce)
  (numbered : lines.Pairwise (·.number < ·.number))
include once numbered

theorem ordered_ofLines : (lines.foldl (Scan.next fallback) Scan.start).Ordered := by
  refine Scan.ordered_start.foldl Scan.sound_start Scan.listed_start ?_ nofun numbered
  exact List.pairwise_reverse.mp once

/-- A label has the address of the line that declares it. -/
theorem exists_declaration (h : (ofLines fallback lines).labels.get? name = some number) :
    ∃ p ∈ (ofLines fallback lines).placements, p.isEqu = false ∧ p.line.number = number ∧
      name ∈ p.line.labels ∧ ∃ address : Nat, p.address = some address ∧
        (ofLines fallback lines).symbols.get? name = some (address : Int) := by
  obtain ⟨p, hp, declared⟩ := (ordered_ofLines once numbered).declared name number h
  exact ⟨p, List.mem_reverse.mpr hp, declared⟩

/-- The first of the symbols with some value that are labels is declared before the others. -/
theorem le_of_first {value : Int} {first : Nat}
    (found : ((ofLines fallback lines).symbols.entries.findSome? fun (other, bound) =>
      if bound = value then (ofLines fallback lines).labels.get? other else none) = some first)
    (hv : (ofLines fallback lines).symbols.get? name = some value)
    (hl : (ofLines fallback lines).labels.get? name = some number) :
    first ≤ number ∧ ∃ other, (ofLines fallback lines).symbols.get? other = some value ∧
      (ofLines fallback lines).labels.get? other = some first := by
  obtain ⟨front, ⟨other, found⟩, back, split, hit, miss⟩ := List.findSome?_eq_some_iff.mp found
  dsimp only at hit
  have same : found = value := by
    by_contra different
    simp [different] at hit
  rw [if_pos same] at hit
  have nodup : (ofLines fallback lines).symbols.keys.Nodup := tidy_ofLines.symbols
  have bound : (ofLines fallback lines).symbols.get? other = some value := by
    refine same ▸ Table.get?_of_mem nodup ?_
    simp [split]
  refine ⟨?_, other, bound, hit⟩
  have listed := Table.mem_of_get? hv
  rw [split, List.mem_append, List.mem_cons] at listed
  obtain before | itself | behind := listed
  · have := miss _ before
    simp [hl] at this
  · cases itself
    rw [hit] at hl
    cases hl
    exact Nat.le_refl _
  · have order : (ofLines fallback lines).symbols.keys.Pairwise _ :=
      (ordered_ofLines once numbered).order
    rw [Table.keys, split, List.map_append, List.map_cons] at order
    have behind := List.mem_map_of_mem (f := (·.1)) behind
    exact List.rel_of_pairwise_cons (List.pairwise_append.mp order).2.1 behind _ _ hit hl

end

end Layout

end Z80Workbench
