import Z80Workbench.Proofs.Code.Reads

/-!
# Z80Workbench.Proofs.Code.Failure

Why code is missing.  An instruction cannot be encoded if an expression in it has no value, if a
value does not fit its field, or if its combination of operands is not supported; the cause tells
these apart.
-/

namespace Z80Workbench

namespace Cause

/-- The cause is that an expression has no value. -/
def isUnresolved : Cause → Bool
  | undefinedSymbol _ _ | unresolved _ => true
  | _ => false

/-- The cause is that a value does not fit. -/
def isMisfit : Cause → Bool
  | branchRange _ _ | offsetRange _ | bitRange _ | restartVector _ | interruptMode _ => true
  | _ => false

end Cause

variable {ctx : Context} {c : Cause}

/-- A value is missing for this cause only. -/
theorem Context.value_eq_error {e : Expr} (h : ctx.value e = .error c) :
    e.value? ctx.scope = none ∧ c = ctx.unresolved e := by
  unfold value at h
  split at h
  case h_1 => cases h
  case h_2 hv =>
      split at h
      · cases h
      · exact ⟨hv, (Except.error.inj h).symm⟩

/-- Why a field cannot be filled: its expression has no value, or the value does not fit. -/
inductive Field.Fails (ctx : Context) (field : Field) : Cause → Prop
  | unresolved {e : Expr} (reads : field.expr? = some e) (none : e.value? ctx.scope = none) :
      Fails ctx field (ctx.unresolved e)
  | misfit {c : Cause} (h : c.isMisfit = true) : Fails ctx field c

/-- Why an instruction cannot be encoded: a field that it reads or stores cannot be filled, or its
combination of operands is not supported. -/
inductive Instruction.Fails (ctx : Context) (i : Instruction) : Cause → Prop
  | field {field : Field} {c : Cause} (listed : field ∈ i.form.reads ++ i.form.code?.getD [])
      (fails : field.fill ctx = .error c) : Fails ctx i c
  | unsupported (none : i.form.code? = none) : Fails ctx i (.unsupportedOperands i.word i.text)

theorem Field.fails_of_fill {field : Field} (h : field.fill ctx = .error c) :
    field.Fails ctx c := by
  have after {e : Expr} {f : Nat → Except Cause (List Nat)} (reads : field.expr? = some e)
      (hf : (ctx.value e >>= f) = .error c) (misfit : ∀ n, f n = .error c → c.isMisfit = true) :
      field.Fails ctx c := by
    obtain hv | ⟨n, -, hn⟩ := bind_eq_error.mp hf
    · obtain ⟨none, rfl⟩ := Context.value_eq_error hv
      exact .unresolved reads none
    · exact .misfit (misfit n hn)
  cases field with
  | opcode n => cases h
  | byte e | word e =>
      cases hv : ctx.value e with
      | error _ =>
          simp only [fill, hv, Except.map, Except.error.injEq] at h
          obtain ⟨none, rfl⟩ := Context.value_eq_error (h ▸ hv)
          exact .unresolved rfl none
      | ok n => simp [fill, hv, Except.map] at h
  | offset e =>
      refine after rfl h fun n hn => ?_
      dsimp only at hn
      split at hn <;> cases hn
      rfl
  | bit base e | restart e | interruptMode e =>
      refine after rfl h fun n hn => ?_
      split at hn <;> cases hn
      rfl
  | relative e =>
      change fillRelative ctx e = .error c at h
      unfold fillRelative at h
      split at h
      case h_1 hv =>
          split at h
          · cases h
          · cases h
            exact .unresolved rfl hv
      case h_2 => cases h
      case h_3 =>
          dsimp only at h
          split at h <;> cases h
          exact .misfit rfl

/-- A row of fields cannot be filled if one of them cannot. -/
theorem Field.exists_of_fillAll {fields : List Field} (h : fillAll ctx fields = .error c) :
    ∃ field ∈ fields, field.fill ctx = .error c := by
  induction fields with
  | nil => cases h
  | cons first rest ih =>
      obtain hf | ⟨bytes, -, h⟩ := bind_eq_error.mp h
      · exact ⟨first, List.mem_cons_self, hf⟩
      · obtain hr | ⟨bytes, -, h⟩ := bind_eq_error.mp h
        · obtain ⟨field, hm, hf⟩ := ih hr
          exact ⟨field, List.mem_cons_of_mem _ hm, hf⟩
        · cases h

theorem Instruction.fails_of_encode {i : Instruction} (h : i.encode ctx = .error c) :
    i.Fails ctx c := by
  obtain hr | ⟨bytes, -, h⟩ := bind_eq_error.mp h
  · obtain ⟨field, hm, hf⟩ := Field.exists_of_fillAll hr
    exact .field (List.mem_append_left _ hm) hf
  · cases hf : i.form.code? with
    | none =>
        rw [hf] at h
        cases h
        exact .unsupported hf
    | some fields =>
        rw [hf] at h
        obtain ⟨field, hm, fails⟩ := Field.exists_of_fillAll h
        exact .field (List.mem_append_right _ (by simpa [hf] using hm)) fails

/-- An instruction that cannot be encoded because of a value that is missing has a field, read or
stored, whose expression has no value. -/
theorem Instruction.exists_of_isUnresolved {i : Instruction} (h : i.encode ctx = .error c)
    (hc : c.isUnresolved = true) :
    ∃ field ∈ i.form.reads ++ i.form.code?.getD [],
      ∃ e, field.expr? = some e ∧ e.value? ctx.scope = none := by
  cases fails_of_encode h with
  | field listed fails =>
      cases Field.fails_of_fill fails with
      | unresolved reads none => exact ⟨_, listed, _, reads, none⟩
      | misfit misfit => cases c <;> cases hc <;> cases misfit
  | unsupported => cases hc

theorem Context.family_unresolved (ctx : Context) (e : Expr) :
    (ctx.unresolved e).family ≠ .addressingMode := by
  unfold unresolved
  dsimp only
  split <;> exact nofun

/-- Only a combination of operands that is not supported is refused as such. -/
theorem Instruction.refused_of_encode {i : Instruction} (h : i.encode ctx = .error c)
    (hc : c.family = .addressingMode) :
    i.form.code? = none ∧ c = .unsupportedOperands i.word i.text := by
  cases fails_of_encode h with
  | field listed fails =>
      cases Field.fails_of_fill fails with
      | unresolved reads none => exact absurd hc (ctx.family_unresolved _)
      | misfit misfit => cases c <;> cases misfit <;> cases hc
  | unsupported none => exact ⟨none, rfl⟩

theorem Instruction.code?_of_encode {i : Instruction} (h : i.encode ctx = .error c)
    (hc : c.family = .addressingMode) : i.form.code? = none :=
  (refused_of_encode h hc).1

end Z80Workbench
