import Z80Workbench.Table

/-!
# Z80Workbench.Proofs.Table

Laws of tables.  Every key is listed once, in order of first insertion, so that the entries are
what a lookup finds, and a table is built again from its own entries.
-/

namespace Z80Workbench

namespace Table

variable {κ ν : Type} [DecidableEq κ] {t : Table κ ν} {key : κ} {value : ν}

/-! ## binding in a row -/

/-- Binding some keys to one value leaves the others as they are. -/
theorem get?_foldl_insert (t : Table κ ν) (keys : List κ) (value : ν) (other : κ) :
    (keys.foldl (fun t key => t.insert key value) t).get? other =
      if other ∈ keys then some value else t.get? other := by
  induction keys generalizing t with
  | nil => simp
  | cons key rest ih =>
      rw [List.foldl_cons, ih, get?_insert]
      by_cases hr : other ∈ rest
      · simp [hr]
      · by_cases hk : key = other
        · simp [hk]
        · simp [hr, hk, Ne.symm hk]

/-! ## keys -/

/-- An entry is listed under a key that is bound. -/
theorem isSome_of_mem (h : (key, value) ∈ t.entries) : (t.get? key).isSome :=
  (mem_keys_iff t key).mp (List.mem_map.mpr ⟨_, h, rfl⟩)

/-- What is bound is listed. -/
theorem mem_of_get? (h : t.get? key = some value) : (key, value) ∈ t.entries := by
  obtain ⟨entries⟩ := t
  induction entries with
  | nil => contradiction
  | cons entry rest ih =>
      obtain ⟨k, v⟩ := entry
      by_cases hk : k = key
      · simp_all [get?, lookup]
      · simp only [get?, lookup, if_neg hk] at h ih
        exact List.mem_cons_of_mem _ (ih h)

/-- If no key is listed twice, what is listed is bound. -/
theorem get?_of_mem (once : t.keys.Nodup) (h : (key, value) ∈ t.entries) :
    t.get? key = some value := by
  obtain ⟨entries⟩ := t
  induction entries with
  | nil => exact absurd h List.not_mem_nil
  | cons entry rest ih =>
      obtain ⟨k, v⟩ := entry
      obtain ⟨first, later⟩ := List.nodup_cons.mp once
      cases List.mem_cons.mp h with
      | inl he =>
          cases he
          simp [get?, lookup]
      | inr hr =>
          have other : k ≠ key := by
            rintro rfl
            exact first (List.mem_map.mpr ⟨_, hr, rfl⟩)
          rw [get?, lookup, if_neg other]
          exact ih later hr

/-- A key that is new comes last. -/
theorem insertEntry_of_notMem {entries : List (κ × ν)} (h : key ∉ entries.map (·.1)) :
    insertEntry key value entries = entries ++ [(key, value)] := by
  induction entries with
  | nil => rfl
  | cons entry rest ih => simp_all [insertEntry, eq_comm]

/-- Binding new keys one after the other lists them in that order. -/
theorem foldl_insert_of_nodup (entries pairs : List (κ × ν))
    (h : ((entries ++ pairs).map (·.1)).Nodup) :
    pairs.foldl (fun t p => t.insert p.1 p.2) (⟨entries⟩ : Table κ ν) = ⟨entries ++ pairs⟩ := by
  induction pairs generalizing entries with
  | nil => simp
  | cons pair rest ih =>
      have new : pair.1 ∉ entries.map (·.1) := by
        simp only [List.map_append, List.map_cons, List.nodup_append] at h
        exact fun hm => h.2.2 _ hm _ List.mem_cons_self rfl
      rw [List.foldl_cons, insert, insertEntry_of_notMem new, ih _ (by simpa using h)]
      simp

/-- A table is built again from its entries. -/
theorem ofList_entries (once : t.keys.Nodup) : ofList t.entries = t :=
  foldl_insert_of_nodup [] t.entries once

theorem mem_keys_insert {other : κ} :
    other ∈ (t.insert key value).keys ↔ other = key ∨ other ∈ t.keys := by
  rw [mem_keys_iff, mem_keys_iff, get?_insert]
  by_cases h : key = other
  · simp [h]
  · simp [h, Ne.symm h]

/-- A relation of keys to those listed behind them is kept if it relates them to a new key. -/
theorem pairwise_keys_insert {R : κ → κ → Prop} (h : t.keys.Pairwise R)
    (new : key ∉ t.keys → ∀ a ∈ t.keys, R a key) : (t.insert key value).keys.Pairwise R := by
  rw [keys_insert]
  by_cases listed : key ∈ t.keys
  · simpa [listed] using h
  · simpa [listed, List.pairwise_append, h] using new listed

theorem nodup_keys_insert (once : t.keys.Nodup) : (t.insert key value).keys.Nodup :=
  pairwise_keys_insert once fun new _ ha he => new (he ▸ ha)

theorem nodup_keys_foldl (once : t.keys.Nodup) (keys : List κ) :
    (keys.foldl (fun t key => t.insert key value) t).keys.Nodup := by
  induction keys generalizing t with
  | nil => exact once
  | cons key rest ih => exact ih (nodup_keys_insert once)

/-- The same for several new keys. -/
theorem pairwise_keys_foldl {R : κ → κ → Prop} {keys : List κ} (h : t.keys.Pairwise R)
    (before : ∀ a ∈ t.keys, ∀ b ∈ keys, R a b) (among : ∀ a ∈ keys, ∀ b ∈ keys, R a b) :
    (keys.foldl (fun t key => t.insert key value) t).keys.Pairwise R := by
  induction keys generalizing t with
  | nil => exact h
  | cons key rest ih =>
      have first : (t.insert key value).keys.Pairwise R :=
        pairwise_keys_insert h fun _ a ha => before a ha key List.mem_cons_self
      refine ih first (fun a ha b hb => ?_) fun a ha b hb =>
        among a (List.mem_cons_of_mem key ha) b (List.mem_cons_of_mem key hb)
      have later := List.mem_cons_of_mem key hb
      obtain rfl | old := mem_keys_insert.mp ha
      · exact among a List.mem_cons_self b later
      · exact before a old b later

end Table

end Z80Workbench
