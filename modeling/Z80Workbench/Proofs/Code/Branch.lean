import Z80Workbench.Proofs.Code.ReadBack
import Z80Workbench.Proofs.Machine.SameCode

/-!
# Z80Workbench.Proofs.Code.Branch

Relative branches.  A branch holds one byte for the distance from its end to its target, so it
reaches the 256 addresses around it and no others, counted around the address space.  The code of a
branch within reach reads back as a branch to the same target; out of reach, the error tells the
whole distance, and with its sign the direction.
-/

namespace Z80Workbench

variable {ctx : Context} {address target : Nat} {d : Int}

/-! ## distances -/

namespace Field

/-- The distance is a word with a sign. -/
theorem distance_range (address target : Nat) :
    -32768 ≤ distance address target ∧ distance address target < 32768 := by
  rw [distance, signed_sixteen, Int.bmod_def]
  split <;> omega

/-- The distance is the only word with a sign that leads to the target. -/
theorem eq_distance_iff (ht : target < 65536) (low : -32768 ≤ d) (high : d < 32768) :
    ((address : Int) + 2 + d) % 65536 = target ↔ d = distance address target := by
  rw [distance, signed_sixteen, Int.bmod_def]
  split <;> omega

/-- A distance is positive exactly if the target is among the 32767 addresses ahead. -/
theorem distance_pos_iff (ht : target < 65536) :
    0 < distance address target ↔
      ∃ k, 1 ≤ k ∧ k < 32768 ∧ (address + 2 + k) % 65536 = target := by
  obtain ⟨low, high⟩ := distance_range address target
  constructor
  · intro positive
    obtain ⟨k, hk⟩ := Int.eq_ofNat_of_zero_le (Int.le_of_lt positive)
    have leads := (eq_distance_iff ht low high).mpr rfl
    exact ⟨k, by omega, by omega, by omega⟩
  · rintro ⟨k, positive, small, leads⟩
    have same : (k : Int) = distance address target :=
      (eq_distance_iff ht (by omega) (by omega)).mp (by omega)
    omega

/-- Some displacement of one byte leads to the target exactly if the distance fits a byte. -/
theorem fitsByte_distance_iff (ht : target < 65536) :
    fitsByte (distance address target) = true ↔
      ∃ d : Int, -128 ≤ d ∧ d ≤ 127 ∧ ((address : Int) + 2 + d) % 65536 = target := by
  obtain ⟨low, high⟩ := distance_range address target
  rw [fitsByte, Bool.and_eq_true, decide_eq_true_eq, decide_eq_true_eq]
  constructor
  · rintro ⟨above, below⟩
    exact ⟨_, above, below, (eq_distance_iff ht low high).mpr rfl⟩
  · rintro ⟨d, above, below, leads⟩
    rw [← (eq_distance_iff ht (by omega) (by omega)).mp leads]
    exact ⟨above, below⟩

end Field

/-! ## code -/

/-- The opcode of a relative branch: one that counts, one that is always taken, or one that depends
on the zero flag or the carry flag. -/
def branchOpcode? : Mnemonic → Option Condition → Option Nat
  | .djnz, none => some 0x10
  | .jr, none => some 0x18
  | .jr, some condition =>
    if condition.isRelative then some (0x20 + 8 * condition.code) else none
  | _, _ => none

theorem Form.ofParts_branch {m : Mnemonic} {condition : Option Condition} {opcode : Nat}
    (h : branchOpcode? m condition = some opcode) (e : Expr) :
    ofParts m condition [.immediate e] = code [.opcode opcode, .relative e] := by
  unfold branchOpcode? at h
  split at h
  case h_1 | h_2 => cases h; rfl
  case h_3 condition =>
      split at h
      case isTrue relative =>
          cases h
          exact if_pos relative
      case isFalse => cases h
  case h_4 => cases h

/-- The code of a branch reads back with the target that its second byte leads to. -/
theorem Reader.decode_branch {m : Mnemonic} {condition : Option Condition} {opcode : Nat}
    (h : branchOpcode? m condition = some opcode) (b : Nat) (rest : List Nat) :
    decode address (opcode :: b :: rest) =
      some (⟨m, condition, [.immediate (.ofNat (word (address + 2 + signed 8 b)))]⟩, rest) := by
  unfold branchOpcode? at h
  split at h
  case h_1 | h_2 => cases h; rfl
  case h_3 condition =>
      split at h
      case isTrue relative =>
          cases h
          cases condition with
          | nz | z | nc | c => rfl
          | po | pe | p | m => cases relative
      case isFalse => cases h
  case h_4 => cases h

namespace Instruction

variable {i : Instruction} {m : Mnemonic} {opcode : Nat} {e : Expr}

/-- An instruction whose code is read as it is stored. -/
theorem encode_of_code {fields : List Field} (h : i.form = .code fields) :
    i.encode ctx = Field.fillAll ctx fields := by
  rw [encode, h]
  show (Field.fillAll ctx fields >>= fun _ => Field.fillAll ctx fields) = _
  cases Field.fillAll ctx fields <;> rfl

/-- The code of a branch at an address whose target has a value. -/
theorem encode_of_branch (ho : i.operation = .mnemonic m)
    (hb : branchOpcode? m i.condition = some opcode)
    (hm : i.operands.map (·.mode) = [.immediate e]) (hv : e.value? ctx.scope = some target)
    (ha : ctx.address = some address) :
    i.encode ctx =
      if Field.fitsByte (Field.distance address target) then
        .ok [opcode, byte (Field.distance address target)]
      else .error (.branchRange e.text (Field.distance address target)) := by
  have form : i.form = .code [.opcode opcode, .relative e] := by
    rw [Instruction.form, ho, hm]
    exact Form.ofParts_branch hb e
  rw [encode_of_code form, Field.fillAll, Field.fillAll, Field.fillAll, Field.fill, Field.fill,
    Field.fillRelative, hv, ha]
  dsimp only
  split <;> rfl

/-- **Relative branches reach exactly the targets around them.**  A branch at an address can be
encoded if and only if a displacement between -128 and 127 leads to its target from the end of the
branch, around the address space.  That displacement is then its second byte, and the code reads
back as the branch to the target.  Otherwise the error tells the distance as a word with a sign,
which is positive exactly if the target is in the half of the address space ahead. -/
theorem encode_branch (ho : i.operation = .mnemonic m)
    (hb : branchOpcode? m i.condition = some opcode)
    (hm : i.operands.map (·.mode) = [.immediate e]) (hv : e.value? ctx.scope = some target)
    (ha : ctx.address = some address) :
    let Leads (d : Int) := ((address : Int) + 2 + d) % 65536 = target
    ((∃ bytes, i.encode ctx = .ok bytes) ↔ ∃ d : Int, -128 ≤ d ∧ d ≤ 127 ∧ Leads d) ∧
    (∀ d : Int, -128 ≤ d → d ≤ 127 → Leads d →
      i.encode ctx = .ok [opcode, byte d] ∧
        ∀ rest, Reader.decode address (opcode :: byte d :: rest) =
          some (⟨m, i.condition, [.immediate (.ofNat target)]⟩, rest)) ∧
    ((¬∃ d : Int, -128 ≤ d ∧ d ≤ 127 ∧ Leads d) →
      ∃ d : Int, i.encode ctx = .error (.branchRange e.text d) ∧
        -32768 ≤ d ∧ d < 32768 ∧ Leads d ∧
        (0 < d ↔ ∃ k, 1 ≤ k ∧ k < 32768 ∧ (address + 2 + k) % 65536 = target)) := by
  intro Leads
  have lt : target < 65536 := Expr.value?_lt hv
  have encoded := encode_of_branch ho hb hm hv ha
  have reach : Field.fitsByte (Field.distance address target) = true ↔ _ :=
    Field.fitsByte_distance_iff lt
  refine ⟨?succeeds, fun d above below leads => ⟨?code, fun rest => ?back⟩, fun far => ?fails⟩
  case succeeds =>
      rw [encoded, ← reach]
      split
      case isTrue fits => exact iff_of_true ⟨_, rfl⟩ fits
      case isFalse far => exact iff_of_false nofun far
  case code =>
      have same := (Field.eq_distance_iff lt (by omega) (by omega)).mp leads
      rw [encoded, if_pos (reach.mpr ⟨d, above, below, leads⟩), same]
  case back =>
      have fits : Field.fitsByte d = true := by simp [Field.fitsByte, above, below]
      have there : Z80Workbench.word (address + 2 + d) = target := by
        unfold Z80Workbench.word
        omega
      rw [Reader.decode_branch hb, signed_byte fits, there]
  case fails =>
      obtain ⟨low, high⟩ := Field.distance_range address target
      rw [encoded, if_neg fun fits => far (reach.mp fits)]
      exact ⟨_, rfl, low, high, (Field.eq_distance_iff lt low high).mpr rfl,
        Field.distance_pos_iff lt⟩

/-- A branch back over the start of the address space. -/
theorem encode_branch_wrapping :
    (ofArgs (.mnemonic .jr) "nc, LAST - 1".toList).encode
        ⟨⟨(∅ : Symbols).insert "LAST" 0xFFFF, fun _ => none⟩, some 5, false⟩ = .ok [0x30, 0xF7] ∧
      Reader.decode 5 [0x30, 0xF7] =
        some (⟨.jr, some .nc, [.immediate (.ofNat 0xFFFE)]⟩, []) := by
  let branch := ofArgs (.mnemonic .jr) "nc, LAST - 1".toList
  let ctx : Context := ⟨⟨(∅ : Symbols).insert "LAST" 0xFFFF, fun _ => none⟩, some 5, false⟩
  have reaches := (@encode_branch ctx 5 0xFFFE branch .jr 0x30 (Expr.ofString "LAST - 1")
    (by decide +kernel) (by decide +kernel) (by decide +kernel) (by decide +kernel) rfl).2.1
  have second : byte (-9) = 0xF7 := by decide
  have flag : branch.condition = some .nc := by decide +kernel
  obtain ⟨code, back⟩ := reaches (-9) (by decide) (by decide) (by decide)
  rw [second] at code back
  rw [flag] at back
  exact ⟨code, back []⟩

end Instruction

end Z80Workbench
