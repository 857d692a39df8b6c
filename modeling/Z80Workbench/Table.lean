/-!
# Z80Workbench.Table

Tables in order of first insertion. A key that is bound again takes the new value and keeps its
place, which is the order in which symbol tables are listed.
-/

namespace Z80Workbench

/-- A table: its entries in order. -/
structure Table (κ ν : Type) where
  entries : List (κ × ν)

namespace Table

variable {κ ν : Type} [DecidableEq κ]

/-- The table without entries. -/
def empty : Table κ ν := ⟨[]⟩

instance : EmptyCollection (Table κ ν) := ⟨empty⟩

instance : Inhabited (Table κ ν) := ⟨empty⟩

/-- The value bound to a key in a list of entries. -/
def lookup (key : κ) : List (κ × ν) → Option ν
  | [] => none
  | (k, v) :: rest => if k = key then some v else lookup key rest

/-- Binds a key in a list of entries, in place if it is there and at the end otherwise. -/
def insertEntry (key : κ) (value : ν) : List (κ × ν) → List (κ × ν)
  | [] => [(key, value)]
  | (k, v) :: rest =>
    if k = key then (k, value) :: rest else (k, v) :: insertEntry key value rest

/-- The value bound to a key. -/
def get? (t : Table κ ν) (key : κ) : Option ν :=
  lookup key t.entries

/-- Whether a key is bound. -/
def contains (t : Table κ ν) (key : κ) : Bool :=
  (t.get? key).isSome

/-- Binds a key. -/
def insert (t : Table κ ν) (key : κ) (value : ν) : Table κ ν :=
  ⟨insertEntry key value t.entries⟩

/-- Removes a key. -/
def erase (t : Table κ ν) (key : κ) : Table κ ν :=
  ⟨t.entries.filter (·.1 ≠ key)⟩

/-- The table that binds each pair in turn. -/
def ofList (pairs : List (κ × ν)) : Table κ ν :=
  pairs.foldl (fun t p => t.insert p.1 p.2) ∅

/-- The keys in order. -/
def keys (t : Table κ ν) : List κ :=
  t.entries.map (·.1)

/-- The number of keys. -/
def size (t : Table κ ν) : Nat :=
  t.entries.length

@[simp] theorem get?_empty (key : κ) : (∅ : Table κ ν).get? key = none := rfl

theorem lookup_insertEntry (key other : κ) (value : ν) (entries : List (κ × ν)) :
    lookup other (insertEntry key value entries) =
      if key = other then some value else lookup other entries := by
  induction entries with
  | nil => simp [insertEntry, lookup]
  | cons entry rest ih =>
    obtain ⟨k, v⟩ := entry
    by_cases hk : k = key
    · subst hk
      by_cases ho : k = other <;> simp [insertEntry, lookup, ho]
    · by_cases ho : k = other
      · subst ho
        simp [insertEntry, lookup, hk, Ne.symm hk]
      · simp [insertEntry, lookup, hk, ho, ih]

/-- After a key is bound, it has the new value and the others have theirs. -/
theorem get?_insert (t : Table κ ν) (key other : κ) (value : ν) :
    (t.insert key value).get? other = if key = other then some value else t.get? other :=
  lookup_insertEntry key other value t.entries

/-- A key is bound exactly if it is listed. -/
theorem mem_keys_iff (t : Table κ ν) (key : κ) : key ∈ t.keys ↔ (t.get? key).isSome := by
  obtain ⟨entries⟩ := t
  induction entries with
  | nil => simp [keys, get?, lookup]
  | cons entry rest ih =>
    obtain ⟨k, v⟩ := entry
    by_cases hk : k = key
    · simp [keys, get?, lookup, hk]
    · simp only [keys, get?] at ih
      simp [keys, get?, lookup, hk, ih, Ne.symm hk]

/-- Binding a key that is listed moves no key; a new key comes last. -/
theorem keys_insert (t : Table κ ν) (key : κ) (value : ν) :
    (t.insert key value).keys = if key ∈ t.keys then t.keys else t.keys ++ [key] := by
  obtain ⟨entries⟩ := t
  induction entries with
  | nil => simp [keys, insert, insertEntry]
  | cons entry rest ih =>
    obtain ⟨k, v⟩ := entry
    by_cases hk : k = key
    · simp [keys, insert, insertEntry, hk]
    · simp only [keys, insert] at ih
      by_cases hm : key ∈ rest.map (·.1)
      · simp [keys, insert, insertEntry, hk, Ne.symm hk, ih, hm]
      · simp [keys, insert, insertEntry, hk, Ne.symm hk, ih, hm]

end Table

end Z80Workbench
