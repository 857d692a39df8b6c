import Z80Workbench.Proofs.Code.Fields
import Z80Workbench.Proofs.Except
import Z80Workbench.Proofs.Expr.Growth

/-!
# Z80Workbench.Proofs.Code.Length

The length of machine code.  A field takes as many bytes as its kind says, so the bytes of a form
are as many however it is filled.  Filling leniently, in a smaller scope and without an address,
succeeds whenever filling for real does: what has no value yet counts as zero, and zero is in
range for every field.
-/

namespace Z80Workbench

/-! ## filling early -/

namespace Expr

/-- The value that the expression has in the smaller scope, if any, it has in the larger. -/
def Keeps (larger smaller : Scope) (e : Expr) : Prop :=
  ∀ n, e.value? smaller = some n → e.value? larger = some n

/-- An expression that has been read keeps its value while its scope grows by identifiers. -/
theorem IsRead.keeps {larger smaller : Scope} (h : larger.Extends smaller)
    (known : KnowsIdentifiers larger.value?) {e : Expr} (he : e.IsRead) :
    e.Keeps larger smaller := by
  obtain ⟨text, rfl⟩ := he
  exact fun n hn => value?_mono h known hn

end Expr

/-- Filling before addresses are known and while names may be missing. -/
def Context.early (scope : Expr.Scope) : Context := { scope, lenient := true }

variable {ctx : Context} {smaller : Expr.Scope}

/-- A value that an expression has in the end it has early, unless it counts as zero. -/
theorem Context.value_early {e : Expr} {n : Nat} (he : e.Keeps ctx.scope smaller)
    (h : ctx.value e = .ok n) :
    (early smaller).value e = .ok n ∨ (early smaller).value e = .ok 0 := by
  unfold value at h ⊢
  cases hv : e.value? smaller with
  | none => exact .inr (by simp [early, hv])
  | some k =>
      rw [he k hv] at h
      exact .inl (by simpa [early, hv] using h)

namespace Field

theorem exists_of_fillRelative {target : Expr} {bytes : List Nat}
    (h : fillRelative ctx target = .ok bytes) : ∃ b < 256, bytes = [b] := by
  unfold fillRelative at h
  split at h
  case h_1 =>
      split at h
      case isTrue => cases h; exact ⟨0, by decide, rfl⟩
      case isFalse => cases h
  case h_2 => cases h; exact ⟨0, by decide, rfl⟩
  case h_3 =>
      dsimp only at h
      split at h
      case isTrue => cases h; exact ⟨_, byte_lt _, rfl⟩
      case isFalse => cases h

/-- A filled field has its width. -/
theorem length_fill {field : Field} {bytes : List Nat} (h : field.fill ctx = .ok bytes) :
    bytes.length = field.width := by
  cases field with
  | opcode n => cases h; rfl
  | byte e =>
      obtain ⟨n, _, rfl⟩ := map_eq_ok.mp h
      rfl
  | word e =>
      obtain ⟨n, _, rfl⟩ := map_eq_ok.mp h
      rfl
  | relative e =>
      obtain ⟨b, _, rfl⟩ := exists_of_fillRelative h
      rfl
  | offset e =>
      obtain ⟨n, _, hn⟩ := bind_eq_ok.mp h
      dsimp only at hn
      split at hn <;> cases hn
      rfl
  | bit base e | restart e =>
      obtain ⟨n, _, hn⟩ := bind_eq_ok.mp h
      split at hn <;> cases hn
      rfl
  | interruptMode e =>
      obtain ⟨n, _, hn⟩ := bind_eq_ok.mp h
      split at hn <;> cases hn <;> rfl

/-- A filled row has the widths of its fields together. -/
theorem length_fillAll {fields : List Field} {bytes : List Nat}
    (h : fillAll ctx fields = .ok bytes) : bytes.length = totalWidth fields := by
  induction fields generalizing bytes with
  | nil => cases h; rfl
  | cons field rest ih =>
      obtain ⟨front, hf, h⟩ := bind_eq_ok.mp h
      obtain ⟨back, hb, h⟩ := bind_eq_ok.mp h
      cases h
      rw [List.length_append, length_fill hf, ih hb]
      rfl

/-- A filled field consists of bytes. -/
theorem lt_of_mem_fill {P : Expr → Prop} {field : Field} (hf : field.Holds P) {bytes : List Nat}
    (h : field.fill ctx = .ok bytes) : ∀ b ∈ bytes, b < 256 := by
  cases field with
  | opcode n =>
      cases h
      simpa using hf
  | byte e =>
      obtain ⟨n, _, rfl⟩ := map_eq_ok.mp h
      simp [lowByte_lt]
  | word e =>
      obtain ⟨n, _, rfl⟩ := map_eq_ok.mp h
      simp [wordBytes, lowByte_lt, highByte_lt]
  | relative e =>
      obtain ⟨b, hb, rfl⟩ := exists_of_fillRelative h
      simpa using hb
  | offset e =>
      obtain ⟨n, _, hn⟩ := bind_eq_ok.mp h
      dsimp only at hn
      split at hn <;> cases hn
      simp [byte_lt]
  | bit base e =>
      have := hf.1
      obtain ⟨n, _, hn⟩ := bind_eq_ok.mp h
      split at hn <;> cases hn
      simp
      omega
  | restart e =>
      obtain ⟨n, _, hn⟩ := bind_eq_ok.mp h
      split at hn <;> cases hn
      simp
      omega
  | interruptMode e =>
      obtain ⟨n, _, hn⟩ := bind_eq_ok.mp h
      split at hn <;> cases hn <;> simp

/-- A filled row of fields consists of bytes. -/
theorem lt_of_mem_fillAll {P : Expr → Prop} {fields : List Field}
    (hf : ∀ field ∈ fields, field.Holds P) {bytes : List Nat}
    (h : fillAll ctx fields = .ok bytes) : ∀ b ∈ bytes, b < 256 := by
  induction fields generalizing bytes with
  | nil => cases h; simp
  | cons field rest ih =>
      obtain ⟨front, hfront, h⟩ := bind_eq_ok.mp h
      obtain ⟨back, hback, h⟩ := bind_eq_ok.mp h
      cases h
      intro b hb
      cases List.mem_append.mp hb with
      | inl hm => exact lt_of_mem_fill (hf field List.mem_cons_self) hfront b hm
      | inr hm => exact ih (fun f hr => hf f (List.mem_cons_of_mem field hr)) hback b hm

/-- A field that is filled for real can be filled early: zero is in range everywhere. -/
theorem fill_early {field : Field} {bytes : List Nat}
    (hk : field.Holds (Expr.Keeps ctx.scope smaller)) (h : field.fill ctx = .ok bytes) :
    ∃ early, field.fill (.early smaller) = .ok early := by
  cases field with
  | opcode n => exact ⟨_, rfl⟩
  | byte e =>
      obtain ⟨n, hn, _⟩ := map_eq_ok.mp h
      cases Context.value_early hk hn with
      | inl hv => exact ⟨_, by rw [fill, hv]; rfl⟩
      | inr hv => exact ⟨_, by rw [fill, hv]; rfl⟩
  | word e =>
      obtain ⟨n, hn, _⟩ := map_eq_ok.mp h
      cases Context.value_early hk hn with
      | inl hv => exact ⟨_, by rw [fill, hv]; rfl⟩
      | inr hv => exact ⟨_, by rw [fill, hv]; rfl⟩
  | relative e =>
      cases hv : e.value? smaller with
      | none => exact ⟨[0], by simp [fill, fillRelative, hv, Context.early]⟩
      | some n => exact ⟨[0], by simp [fill, fillRelative, hv, Context.early]⟩
  | bit base e =>
      obtain ⟨n, hn, h⟩ := bind_eq_ok.mp h
      cases Context.value_early hk.2 hn with
      | inl hv => exact ⟨bytes, bind_eq_ok.mpr ⟨n, hv, h⟩⟩
      | inr hv => exact ⟨_, bind_eq_ok.mpr ⟨0, hv, rfl⟩⟩
  | offset e | restart e | interruptMode e =>
      obtain ⟨n, hn, h⟩ := bind_eq_ok.mp h
      cases Context.value_early hk hn with
      | inl hv => exact ⟨bytes, bind_eq_ok.mpr ⟨n, hv, h⟩⟩
      | inr hv => exact ⟨_, bind_eq_ok.mpr ⟨0, hv, rfl⟩⟩

/-- A row of fields that is filled for real can be filled early. -/
theorem fillAll_early {fields : List Field} {bytes : List Nat}
    (hk : ∀ field ∈ fields, field.Holds (Expr.Keeps ctx.scope smaller))
    (h : fillAll ctx fields = .ok bytes) :
    ∃ early, fillAll (.early smaller) fields = .ok early := by
  induction fields generalizing bytes with
  | nil => exact ⟨[], rfl⟩
  | cons field rest ih =>
      obtain ⟨front, hf, h⟩ := bind_eq_ok.mp h
      obtain ⟨back, hb, _⟩ := bind_eq_ok.mp h
      obtain ⟨front', hf'⟩ := fill_early (hk field List.mem_cons_self) hf
      obtain ⟨back', hb'⟩ := ih (fun f hm => hk f (List.mem_cons_of_mem field hm)) hb
      exact ⟨front' ++ back', bind_eq_ok.mpr ⟨front', hf', bind_eq_ok.mpr ⟨back', hb', rfl⟩⟩⟩

end Field

namespace Instruction

variable {i : Instruction} {bytes : List Nat}

/-- An instruction can be encoded exactly if its fields can be read and stored. -/
theorem encode_eq_ok :
    i.encode ctx = .ok bytes ↔
      ∃ read fields, Field.fillAll ctx i.form.reads = .ok read ∧ i.form.code? = some fields ∧
        Field.fillAll ctx fields = .ok bytes := by
  rw [encode, bind_eq_ok]
  cases i.form.code? with
  | none => simp
  | some fields => simp

/-- The code of an instruction consists of bytes. -/
theorem lt_of_mem_encode {operation : Operation} {args : List Char}
    (h : (ofArgs operation args).encode ctx = .ok bytes) : ∀ b ∈ bytes, b < 256 := by
  obtain ⟨read, fields, _, hc, hb⟩ := encode_eq_ok.mp h
  exact Field.lt_of_mem_fillAll (fun f hf => isRead_form operation args f (by simp [hc, hf])) hb

/-- The size of an instruction before addresses and later names are known is the length of the
code that it has in the end. -/
theorem size?_of_encode {symbols : Symbols} (h : ctx.scope.Extends { symbols })
    (known : Expr.KnowsIdentifiers ctx.scope.value?) (hi : i.form.Holds Expr.IsRead)
    (he : i.encode ctx = .ok bytes) : i.size? symbols = some bytes.length := by
  obtain ⟨read, fields, hr, hc, hb⟩ := encode_eq_ok.mp he
  have keeps : i.form.Holds (Expr.Keeps ctx.scope { symbols }) :=
    hi.imp fun e hr => hr.keeps h known
  obtain ⟨read', hr'⟩ := Field.fillAll_early (fun f hf => keeps f (by simp [hf])) hr
  obtain ⟨bytes', hb'⟩ := Field.fillAll_early (fun f hf => keeps f (by simp [hc, hf])) hb
  have early : i.encode (.early { symbols }) = .ok bytes' :=
    encode_eq_ok.mpr ⟨read', fields, hr', hc, hb'⟩
  rw [Context.early] at early
  rw [size?, early, Field.length_fillAll hb, ← Field.length_fillAll hb']

end Instruction

end Z80Workbench
