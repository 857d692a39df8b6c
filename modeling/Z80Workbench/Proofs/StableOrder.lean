import Mathlib.Data.List.Defs

/-!
# Z80Workbench.Proofs.StableOrder

Rows put in order by a key, and the neighbours in a row.  Sorting is stable, so that what has one
key keeps its order, and a row made of one block for each of some members is sorted by sorting the
members.  The neighbours in such a row are those inside a block and, between two blocks, the last
of one and the first of the next.
-/

namespace Z80Workbench.StableOrder

open List (consecutivePairs)

variable {α β γ : Type} {key : α → Int}

/-- A row in the order of its keys; what has the same key keeps its order. -/
def inOrder (key : α → Int) (row : List α) : List α :=
  row.mergeSort fun a b => key a ≤ key b

/-! ## sorting -/

theorem perm_inOrder (key : α → Int) (row : List α) : (inOrder key row).Perm row :=
  List.mergeSort_perm _ _

theorem pairwise_inOrder (key : α → Int) (row : List α) :
    (inOrder key row).Pairwise fun a b => key a ≤ key b := by
  have sorted : (inOrder key row).Pairwise fun a b => decide (key a ≤ key b) = true :=
    List.pairwise_mergeSort (fun a b c => by simpa using Int.le_trans)
      (fun a b => by simpa using Int.le_total _ _) row
  simpa using sorted

/-- A row that is in order stays as it is. -/
theorem inOrder_of_pairwise {row : List α} (h : row.Pairwise fun a b => key a ≤ key b) :
    inOrder key row = row :=
  List.mergeSort_of_pairwise (by simpa using h)

/-- Sorting leaves what has one key in its order. -/
theorem filter_inOrder (key : α → Int) (row : List α) (k : Int) :
    (inOrder key row).filter (key · = k) = row.filter (key · = k) := by
  have one : (row.filter (key · = k)).Pairwise fun a b => decide (key a ≤ key b) := by
    refine List.pairwise_of_forall_mem_list fun a ha b hb => ?_
    have ha := (List.mem_filter.mp ha).2
    have hb := (List.mem_filter.mp hb).2
    simp only [decide_eq_true_eq] at ha hb ⊢
    omega
  have kept : (row.filter (key · = k)).Sublist (inOrder key row) :=
    List.sublist_mergeSort (fun a b c => by simpa using Int.le_trans)
      (fun a b => by simpa using Int.le_total _ _) one List.filter_sublist
  have same := kept.filter (key · = k)
  rw [List.filter_filter] at same
  simp only [Bool.and_self] at same
  exact (same.eq_of_length ((perm_inOrder key row).symm.filter _).length_eq).symm

/-- Two rows in order are the same if they have the same members with each key, in the same
order. -/
theorem eq_of_filter {row other : List α} (hr : row.Pairwise fun a b => key a ≤ key b)
    (ho : other.Pairwise fun a b => key a ≤ key b)
    (h : ∀ k, row.filter (key · = k) = other.filter (key · = k)) : row = other := by
  induction row generalizing other with
  | nil =>
      cases other with
      | nil => rfl
      | cons b more => simpa using h (key b)
  | cons a rest ih =>
      cases other with
      | nil => simpa using h (key a)
      | cons b more =>
          -- each head is found in the other row, behind nothing that is less
          have ab : key a ≤ key b := by
            have found : b ∈ (a :: rest).filter (key · = key b) := by simp [h]
            obtain rfl | later := List.mem_cons.mp (List.mem_filter.mp found).1
            · exact Int.le_refl _
            · exact List.rel_of_pairwise_cons hr later
          have ba : key b ≤ key a := by
            have found : a ∈ (b :: more).filter (key · = key a) := by simp [← h]
            obtain rfl | later := List.mem_cons.mp (List.mem_filter.mp found).1
            · exact Int.le_refl _
            · exact List.rel_of_pairwise_cons ho later
          have same : key b = key a := Int.le_antisymm ba ab
          have heads := h (key a)
          simp only [List.filter_cons, same, decide_true, if_true, List.cons.injEq] at heads
          obtain ⟨rfl, -⟩ := heads
          congr 1
          refine ih hr.of_cons ho.of_cons fun k => ?_
          have tails := h k
          simp only [List.filter_cons] at tails
          split at tails
          · exact (List.cons.inj tails).2
          · exact tails

/-- Blocks that are empty but for some members are those of these members. -/
theorem flatMap_eq_of_blank {block given : β → List α} {c : β → Bool} {row : List β}
    (h : ∀ b, given b = if c b then block b else []) :
    row.flatMap given = (row.filter c).flatMap block := by
  induction row with
  | nil => rfl
  | cons b rest ih =>
      rw [List.flatMap_cons, ih, h, List.filter_cons]
      split <;> simp_all

/-- Blocks whose members have the key of the block are sorted by sorting the blocks. -/
theorem inOrder_flatMap {block : β → List α} {of : β → Int} {row : List β}
    (h : ∀ b, ∀ a ∈ block b, key a = of b) :
    inOrder key (row.flatMap block) = (inOrder of row).flatMap block := by
  refine eq_of_filter (pairwise_inOrder _ _) ?_ fun k => ?_
  · rw [List.pairwise_flatMap]
    constructor
    · intro b _
      refine List.pairwise_of_forall_mem_list fun x hx y hy => ?_
      exact Int.le_of_eq ((h b x hx).trans (h b y hy).symm)
    · refine (pairwise_inOrder of row).imp fun le x hx y hy => ?_
      rw [h _ x hx, h _ y hy]
      exact le
  · have inside (b : β) : (block b).filter (key · = k) =
        if decide (of b = k) then block b else [] := by
      simp only [decide_eq_true_eq]
      split
      case isTrue hk =>
          rw [List.filter_eq_self]
          intro a ha
          simp [h b a ha, hk]
      case isFalse hk =>
          rw [List.filter_eq_nil_iff]
          intro a ha
          simp [h b a ha, hk]
    rw [filter_inOrder, List.filter_flatMap, List.filter_flatMap,
      flatMap_eq_of_blank inside, flatMap_eq_of_blank inside, filter_inOrder]

/-! ## neighbours -/

theorem consecutivePairs_append (front back : List α) (a b : α) :
    (front ++ a :: b :: back).consecutivePairs =
      (front ++ [a]).consecutivePairs ++ (a, b) :: (b :: back).consecutivePairs := by
  induction front with
  | nil => rfl
  | cons c rest ih =>
      cases rest with
      | nil => rfl
      | cons d more => exact congrArg ((c, d) :: ·) ih

/-- Each of two neighbours in a row that is in order is in its place. -/
theorem le_of_mem_consecutivePairs {row : List α} (h : row.Pairwise fun a b => key a ≤ key b) :
    ∀ p ∈ row.consecutivePairs, key p.1 ≤ key p.2 := by
  induction row with
  | nil => exact nofun
  | cons a rest ih =>
      cases rest with
      | nil => exact nofun
      | cons b more =>
          intro p hp
          obtain rfl | later := List.mem_cons.mp hp
          · exact List.rel_of_pairwise_cons h List.mem_cons_self
          · exact ih h.of_cons p later

/-- The neighbours in a row that is in order are in order themselves. -/
theorem pairwise_consecutivePairs {row : List α} (h : row.Pairwise fun a b => key a ≤ key b) :
    row.consecutivePairs.Pairwise fun p q => key p.2 ≤ key q.1 := by
  induction row with
  | nil => exact List.Pairwise.nil
  | cons a rest ih =>
      cases rest with
      | nil => exact List.Pairwise.nil
      | cons b more =>
          refine List.Pairwise.cons (fun p hp => ?_) (ih h.of_cons)
          obtain rfl | later := List.mem_cons.mp (List.of_mem_zip hp).1
          · exact Int.le_refl _
          · exact List.rel_of_pairwise_cons h.of_cons later

/-- What is told from neighbours in blocks, if nothing is told from those in one block. -/
theorem filterMap_consecutivePairs_flatMap {block : β → List α} (first last : β → α)
    {tell : α × α → Option γ} {row : List β}
    (starts : ∀ b ∈ row, ∃ back, block b = first b :: back)
    (ends : ∀ b ∈ row, ∃ front, block b = front ++ [last b])
    (inside : ∀ b ∈ row, ∀ x ∈ block b, ∀ y ∈ block b, tell (x, y) = none) :
    (row.flatMap block).consecutivePairs.filterMap tell =
      row.consecutivePairs.filterMap fun p => tell (last p.1, first p.2) := by
  have silent (b : β) (hb : b ∈ row) : (block b).consecutivePairs.filterMap tell = [] := by
    rw [List.filterMap_eq_nil_iff]
    intro p hp
    obtain ⟨hx, hy⟩ := List.of_mem_zip hp
    exact inside b hb _ hx _ (List.mem_of_mem_tail hy)
  induction row with
  | nil => rfl
  | cons b rest ih =>
      cases rest with
      | nil =>
          rw [List.flatMap_singleton, silent b List.mem_cons_self]
          rfl
      | cons c more =>
          obtain ⟨front, hf⟩ := ends b List.mem_cons_self
          obtain ⟨back, hb⟩ := starts c (by simp)
          have tail := ih (fun d hd => starts d (List.mem_cons_of_mem b hd))
            (fun d hd => ends d (List.mem_cons_of_mem b hd))
            (fun d hd => inside d (List.mem_cons_of_mem b hd))
            fun d hd => silent d (List.mem_cons_of_mem b hd)
          have mine := silent b List.mem_cons_self
          rw [hf] at mine
          rw [List.flatMap_cons, hb, List.cons_append] at tail
          rw [List.flatMap_cons, List.flatMap_cons, hf, hb, List.append_assoc, List.cons_append,
            List.nil_append, List.cons_append, consecutivePairs_append, List.filterMap_append, mine,
            List.nil_append, List.filterMap_cons, tail]
          rfl

end Z80Workbench.StableOrder
