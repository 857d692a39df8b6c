/-!
# Z80Workbench.Proofs.Except

Taking apart what has succeeded: a sequence of steps succeeds exactly if every step does, and
fails exactly if one of them does.  Two results are alike if both are the same failure, or both are
successes whose values are related.
-/

namespace Z80Workbench

variable {ε α β γ : Type}

/-- Two steps in a row succeed exactly if the first does and the second does on its result. -/
theorem bind_eq_ok {x : Except ε α} {f : α → Except ε β} {b : β} :
    (x >>= f) = .ok b ↔ ∃ a, x = .ok a ∧ f a = .ok b := by
  cases x with
  | error e => simp [bind, Except.bind]
  | ok a => simp [bind, Except.bind]

/-- Two steps in a row fail exactly if the first does or the second does on its result. -/
theorem bind_eq_error {x : Except ε α} {f : α → Except ε β} {e : ε} :
    (x >>= f) = .error e ↔ x = .error e ∨ ∃ a, x = .ok a ∧ f a = .error e := by
  cases x with
  | error e => simp [bind, Except.bind]
  | ok a => simp [bind, Except.bind]

/-- A step whose result is changed afterwards succeeds exactly if the step does. -/
theorem map_eq_ok {x : Except ε α} {f : α → β} {b : β} :
    x.map f = .ok b ↔ ∃ a, x = .ok a ∧ f a = b := by
  cases x with
  | error e => simp [Except.map]
  | ok a => simp [Except.map]

/-- What a step fails with, if it fails. -/
def failure? : Except ε α → Option ε
  | .error e => some e
  | .ok _ => none

theorem failure?_eq_some {x : Except ε α} {e : ε} : failure? x = some e ↔ x = .error e := by
  cases x with
  | error e => simp [failure?]
  | ok a => simp [failure?]

/-- What passes the test for success has succeeded. -/
theorem exists_of_toBool {x : Except ε α} (h : x.toBool = true) : ∃ a, x = .ok a := by
  cases x with
  | error e => cases h
  | ok a => exact ⟨a, rfl⟩

/-- A part of a result tells that there is one. -/
theorem exists_of_toOption {x : Except ε α} {f : α → β} {v : β}
    (h : x.toOption.map f = some v) : ∃ a, x = .ok a ∧ f a = v := by
  cases x with
  | error e => cases h
  | ok a => exact ⟨a, rfl, Option.some.inj h⟩

/-- The result of two steps in a row, if both have one. -/
theorem toOption_bind (x : Except ε α) (f : α → Except ε β) :
    (x >>= f).toOption = x.toOption.bind fun a => (f a).toOption := by
  cases x <;> rfl

theorem toOption_map (x : Except ε α) (f : α → β) : (x.map f).toOption = x.toOption.map f := by
  cases x <;> rfl

/-- A row of steps succeeds if every step does. -/
theorem mapM_eq_ok {f : α → Except ε β} {g : α → β} {xs : List α}
    (h : ∀ x ∈ xs, f x = .ok (g x)) : xs.mapM f = .ok (xs.map g) := by
  induction xs with
  | nil => rfl
  | cons x rest ih =>
      rw [List.mapM_cons, h x List.mem_cons_self,
        ih fun y hy => h y (List.mem_cons_of_mem x hy)]
      rfl

/-- A row of steps fails only if one of them does. -/
theorem exists_of_mapM_eq_error {f : α → Except ε β} {xs : List α} {e : ε}
    (h : xs.mapM f = .error e) : ∃ x ∈ xs, f x = .error e := by
  induction xs with
  | nil => cases h
  | cons x rest ih =>
      rw [List.mapM_cons] at h
      obtain hx | ⟨b, -, h⟩ := bind_eq_error.mp h
      · exact ⟨x, List.mem_cons_self, hx⟩
      obtain hr | ⟨bs, -, h⟩ := bind_eq_error.mp h
      · obtain ⟨y, hy, he⟩ := ih hr
        exact ⟨y, List.mem_cons_of_mem x hy, he⟩
      · cases h

/-- Each step of a row that succeeds gives a member of the results. -/
theorem exists_of_mapM_eq_ok {f : α → Except ε β} {xs : List α} {ys : List β}
    (h : xs.mapM f = .ok ys) {x : α} (hx : x ∈ xs) : ∃ y ∈ ys, f x = .ok y := by
  induction xs generalizing ys with
  | nil => cases hx
  | cons first rest ih =>
      rw [List.mapM_cons] at h
      obtain ⟨b, hb, h⟩ := bind_eq_ok.mp h
      obtain ⟨bs, hbs, h⟩ := bind_eq_ok.mp h
      cases h
      cases List.mem_cons.mp hx with
      | inl he => exact ⟨b, List.mem_cons_self, he ▸ hb⟩
      | inr hr =>
          obtain ⟨y, hy, found⟩ := ih hbs hr
          exact ⟨y, List.mem_cons_of_mem b hy, found⟩

/-- Steps from a state to the next succeed if each does from every state. -/
theorem foldlM_eq_ok {f : β → α → Except ε β} {g : β → α → β} {xs : List α} (b : β)
    (h : ∀ x ∈ xs, ∀ b, f b x = .ok (g b x)) : xs.foldlM f b = .ok (xs.foldl g b) := by
  induction xs generalizing b with
  | nil => rfl
  | cons x rest ih =>
      rw [List.foldlM_cons, h x List.mem_cons_self b]
      exact ih (g b x) fun y hy => h y (List.mem_cons_of_mem x hy)

/-- Steps from a state to the next fail only if one of them does. -/
theorem exists_of_foldlM_eq_error {f : β → α → Except ε β} {xs : List α} {b : β} {e : ε}
    (h : xs.foldlM f b = .error e) : ∃ x ∈ xs, ∃ b, f b x = .error e := by
  induction xs generalizing b with
  | nil => cases h
  | cons x rest ih =>
      rw [List.foldlM_cons] at h
      obtain hx | ⟨b', -, h⟩ := bind_eq_error.mp h
      · exact ⟨x, List.mem_cons_self, b, hx⟩
      · obtain ⟨y, hy, b'', he⟩ := ih h
        exact ⟨y, List.mem_cons_of_mem x hy, b'', he⟩

/-- Where steps from a state to the next succeed, each does from some state. -/
theorem exists_of_foldlM_eq_ok {f : β → α → Except ε β} {xs : List α} {b c : β}
    (h : xs.foldlM f b = .ok c) {x : α} (hx : x ∈ xs) : ∃ b b', f b x = .ok b' := by
  induction xs generalizing b with
  | nil => cases hx
  | cons first rest ih =>
      rw [List.foldlM_cons] at h
      obtain ⟨b', hb, hr⟩ := bind_eq_ok.mp h
      cases List.mem_cons.mp hx with
      | inl he => exact ⟨b, b', he ▸ hb⟩
      | inr mem => exact ih hr mem

/-- Both have failed for the same reason, or both have succeeded with related values. -/
inductive Alike (r : α → β → Prop) : Except ε α → Except ε β → Prop
  | error (e : ε) : Alike r (.error e) (.error e)
  | ok {a : α} {b : β} : r a b → Alike r (.ok a) (.ok b)

/-- Results that a change of their values makes equal are alike. -/
theorem alike_of_map_eq {x : Except ε α} {y : Except ε β} {f : α → γ} {g : β → γ}
    (h : x.map f = y.map g) : Alike (fun a b => f a = g b) x y := by
  cases x with
  | error e =>
      cases y with
      | error e' => cases h; exact .error e
      | ok b => cases h
  | ok a =>
      cases y with
      | error e' => cases h
      | ok b => exact .ok (Except.ok.inj h)

theorem Alike.imp {r s : α → β → Prop} {x : Except ε α} {y : Except ε β} (h : Alike r x y)
    (imp : ∀ a b, r a b → s a b) : Alike s x y := by
  cases h with
  | error e => exact .error e
  | ok related => exact .ok (imp _ _ related)

end Z80Workbench
