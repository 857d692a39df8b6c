import Z80Workbench.Assembly.Image
import Z80Workbench.Proofs.Code.Length

/-!
# Z80Workbench.Proofs.Assembly.Yield

What the lines of an image yield, one at a time: when a line warns that its code is not as long
as the space reserved for it, and that the slots of any other line are as many as its size says.
-/

namespace Z80Workbench

open Text Source

/-- The slots of an emission hold bytes. -/
def Emission.HoldsBytes (e : Emission) : Prop := ∀ b, some b ∈ e.slots → b < 256

/-- A data directive has the size that it had with the symbols of some lines. -/
def Placement.Sized (p : Placement) : Prop :=
  ∀ d, p.line.operation = some (.directive d) → d ≠ .org → d ≠ .equ →
    ∃ symbols, p.size = d.size symbols p.line.args.toList

/-! ## texts of warnings -/

namespace Image

/-- The text behind a line number is known if the whole text is. -/
theorem eq_of_numbered {m n : Nat} {front back : List Char}
    (h : Nat.toDigits 10 m ++ ':' :: front = Nat.toDigits 10 n ++ ':' :: back) : front = back := by
  have drop : ∀ (k : Nat) (rest : List Char),
      (Nat.toDigits 10 k ++ ':' :: rest).dropWhile Char.isDigit = ':' :: rest := by
    intro k rest
    rw [List.dropWhile_append_of_pos
      fun c hc => Nat.isDigit_of_mem_toDigits (by decide) (by decide) hc]
    rfl
  have hd := congrArg (List.dropWhile Char.isDigit) h
  rw [drop, drop] at hd
  exact List.tail_eq_of_cons_eq hd

/-- A warning about an unknown word is none about a size. -/
theorem unknownWarning_ne_sizeWarning (line other : SourceLine) (word : String)
    (length reserved : Nat) : unknownWarning line word ≠ sizeWarning other length reserved := by
  intro h
  have ht := congrArg String.toList h
  have plain : ∀ s : String, toString s = s := fun _ => rfl
  unfold unknownWarning sizeWarning at ht
  simp only [plain, Nat.toString_eq_repr, String.toList_append, List.append_assoc,
    Nat.toList_repr, String.reduceToList, List.cons_append, List.cons.injEq, true_and] at ht
  exact absurd (eq_of_numbered ht) (by simp)

/-! ## lines with a warning -/

/-- Directives warn of nothing. -/
theorem warnings_ofSpace (setting : Setting) (line : SourceLine) (size : Nat) :
    (ofSpace setting line size).warnings = [] := by
  unfold ofSpace
  split
  · split <;> rfl
  · rfl

/-- An instruction warns of its size if it can be encoded to code of another size. -/
theorem sizeWarning_mem_ofInstruction {setting : Setting} {line other : SourceLine}
    {operation : Operation} {address size length reserved : Nat}
    (h : sizeWarning other length reserved ∈
      (ofInstruction setting line operation address size).warnings) :
    ∃ bytes, (Instruction.ofArgs operation line.args.toList).encode
        { scope := setting.scope, address := some address } = .ok bytes ∧
      bytes.length ≠ size := by
  unfold ofInstruction at h
  dsimp only at h
  split at h
  case h_1 bytes he =>
      refine ⟨bytes, he, fun hl => ?_⟩
      rw [if_pos hl] at h
      exact List.not_mem_nil h
  case h_2 => exact absurd h List.not_mem_nil

/-- Only an instruction that can be encoded warns of its size. -/
theorem sizeWarning_mem_ofPlacement {setting : Setting} {p : Placement} {other : SourceLine}
    {length reserved : Nat}
    (h : sizeWarning other length reserved ∈ (ofPlacement setting p).warnings) :
    ∃ m address bytes, p.line.operation = some (.mnemonic m) ∧ p.address = some address ∧
      (Instruction.ofArgs (.mnemonic m) p.line.args.toList).encode
        { scope := setting.scope, address := some address } = .ok bytes ∧
      bytes.length ≠ p.size := by
  unfold ofPlacement at h
  split at h
  case h_1 d _ _ _ =>
      repeat' split at h
      all_goals simp [ofBytes, ofWords, warnings_ofSpace, LineYield.nothing] at h
  case h_2 m address hm ha =>
      obtain ⟨bytes, he, hl⟩ := sizeWarning_mem_ofInstruction h
      exact ⟨m, address, bytes, hm, ha, he, hl⟩
  case h_3 word _ _ _ =>
      exact absurd (List.mem_singleton.mp h).symm (unknownWarning_ne_sizeWarning _ _ _ _ _)
  case h_4 => exact absurd h List.not_mem_nil

/-! ## slots -/

/-- An operand of a byte directive takes the bytes counted for it. -/
theorem length_byteItem (scope : Expr.Scope) (token : List Char) :
    (byteItem scope token).length = byteItemSize token := by
  unfold byteItem byteItemSize
  cases quotedText? token with
  | none => rfl
  | some cs => simp

theorem length_byteItems (scope : Expr.Scope) (tokens : List (List Char)) :
    (tokens.flatMap (byteItem scope)).length = byteItemsSize tokens := by
  induction tokens with
  | nil => rfl
  | cons token rest ih =>
      rw [List.flatMap_cons, List.length_append, length_byteItem, ih]
      rfl

/-- What an operand of a byte directive stores are bytes. -/
theorem lt_of_mem_byteItem {scope : Expr.Scope} {token : List Char} {b : Nat}
    (h : some b ∈ byteItem scope token) : b < 256 := by
  unfold byteItem at h
  cases hq : quotedText? token with
  | none =>
      rw [hq, List.mem_singleton] at h
      obtain ⟨n, _, rfl⟩ := Option.map_eq_some_iff.mp h.symm
      exact lowByte_lt n
  | some cs =>
      rw [hq] at h
      obtain ⟨c, _, hc⟩ := List.mem_map.mp h
      cases hc
      exact lowByte_lt _

variable {setting : Setting} {line : SourceLine} {e : Emission}

theorem slots_ofBytes (h : (ofBytes setting line).emission = some e) :
    e.slots.length = byteItemsSize (splitData line.args.toList) ∧ e.HoldsBytes := by
  cases h
  constructor
  · exact length_byteItems _ _
  · intro b hb
    obtain ⟨token, _, ht⟩ := List.mem_flatMap.mp hb
    exact lt_of_mem_byteItem ht

theorem slots_ofWords (h : (ofWords setting line).emission = some e) :
    e.slots.length = 2 * (splitData line.args.toList).length ∧ e.HoldsBytes := by
  cases h
  constructor
  · rw [List.length_flatMap]
    simp [wordBytes, Nat.mul_comm]
  · intro b hb
    obtain ⟨token, _, ht⟩ := List.mem_flatMap.mp hb
    simp only [wordBytes, List.map_cons, List.map_nil, List.mem_cons, Option.some.injEq,
      List.not_mem_nil, or_false] at ht
    cases ht with
    | inl hl => rw [hl]; exact lowByte_lt _
    | inr hh => rw [hh]; exact highByte_lt _

theorem slots_ofSpace {size : Nat} (h : (ofSpace setting line size).emission = some e) :
    e.slots.length = size ∧ e.HoldsBytes := by
  unfold ofSpace at h
  split at h
  case h_1 =>
      split at h
      case h_1 value _ =>
          cases h
          refine ⟨List.length_replicate, fun b hb => ?_⟩
          cases List.eq_of_mem_replicate hb
          exact lowByte_lt value
      case h_2 => contradiction
  case h_2 => contradiction

theorem slots_ofInstruction {operation : Operation} {address size : Nat}
    (h : (ofInstruction setting line operation address size).emission = some e)
    (quiet : ∀ length reserved, sizeWarning line length reserved ∉
      (ofInstruction setting line operation address size).warnings) :
    e.slots.length = size ∧ e.HoldsBytes := by
  unfold ofInstruction at h quiet
  dsimp only at h quiet
  split at h
  case h_1 bytes he =>
      cases h
      have hl : bytes.length = size := by
        by_contra hne
        refine quiet bytes.length size ?_
        rw [he]
        simp [hne]
      refine ⟨by simpa using hl, fun b hb => ?_⟩
      exact Instruction.lt_of_mem_encode he b (by simpa using hb)
  case h_2 => contradiction

/-- A line that does not warn of its size stores as many slots as its size says, if any, and
they hold bytes. -/
theorem slots_ofPlacement {p : Placement} (sized : p.Sized)
    (h : (ofPlacement setting p).emission = some e)
    (quiet : ∀ length reserved,
      sizeWarning p.line length reserved ∉ (ofPlacement setting p).warnings) :
    e.slots.length = p.size ∧ e.HoldsBytes := by
  unfold ofPlacement at h quiet
  split at h
  case h_1 d address hd ha =>
      split at h
      case isTrue hb =>
          obtain ⟨symbols, hs⟩ :=
            sized d hd (by rintro rfl; contradiction) (by rintro rfl; contradiction)
          rw [hs, Directive.size, if_pos hb]
          exact slots_ofBytes h
      case isFalse hb =>
          split at h
          case isTrue hw =>
              obtain ⟨symbols, hs⟩ :=
                sized d hd (by rintro rfl; contradiction) (by rintro rfl; contradiction)
              rw [hs, Directive.size, if_neg hb, if_pos hw]
              exact slots_ofWords h
          case isFalse hw =>
              split at h
              · exact slots_ofSpace h
              · contradiction
  case h_2 m address hm ha =>
      simp only [hm, ha] at quiet
      exact slots_ofInstruction h quiet
  case h_3 => contradiction
  case h_4 => contradiction

end Image

end Z80Workbench
