import Z80Workbench.Code.LookUp
import Z80Workbench.Proofs.Code.Length
import Z80Workbench.Proofs.Except

/-!
# Z80Workbench.Proofs.Code.LookUp

Encoding with the look-ups of index registers.  Only a name that is in no table makes a fault; where
there is none, the outcome is that of `Instruction.encode`, be it code or an error.
-/

namespace Z80Workbench

variable {ctx : Context}

/-! ## names of index registers -/

theorem Index.isSome_opcodeOf? (x : Index) : (opcodeOf? x.name).isSome = true := by
  cases x <;> decide

namespace Operand

variable {o : Operand} {name : String}

/-- The names in no table are the two that are spelled with a dotted capital letter. -/
theorem mem_of_strayName? (h : o.strayName? = some name) : name ∈ ["İX", "İY"] := by
  obtain ⟨named, unknown⟩ := Option.filter_eq_some_iff.mp h
  rw [Option.isNone_iff_eq_none] at unknown
  unfold indexName? at named
  split at named
  case h_1 => cases named; decide
  case h_2 => cases named; decide
  case h_3 x _ _ _ _ =>
      cases named
      have known := x.isSome_opcodeOf?
      rw [unknown] at known
      cases known
  case h_4 => cases named

/-- A name that is not stray is in the table. -/
theorem isSome_opcodeOf? (h : o.strayName? = none) (named : o.indexName? = some name) :
    (Index.opcodeOf? name).isSome = true := by
  rw [strayName?, named, Option.filter_some] at h
  split at h
  case isTrue => cases h
  case isFalse known =>
      rw [Option.isSome_iff_ne_none, Ne, ← Option.isNone_iff_eq_none]
      exact known

end Operand

/-! ## look-ups -/

namespace LookUp

variable {l : LookUp} {reads : List Field} {o : Operand}

theorem mem_of (h : l ∈ LookUp.of reads o) : o.indexName? = some l.name := by
  obtain ⟨name, hn, rfl⟩ := List.mem_map.mp h
  exact Option.mem_toList.mp hn

theorem run_of_isSome (h : (Index.opcodeOf? l.name).isSome = true) : l.run ctx = .ok () := by
  obtain ⟨opcode, known⟩ := Option.isSome_iff_exists.mp h
  rw [run, known]
  split <;> rfl

/-- A look-up fails only if the table does not have the name. -/
theorem fault_of_run {fault : Fault} (h : l.run ctx = .error fault) :
    Index.opcodeOf? l.name = none ∧ fault = .noRegister l.name := by
  rw [run] at h
  split at h
  · cases h
  split at h
  case h_1 => cases h
  case h_2 unknown => exact ⟨unknown, (Except.error.inj h).symm⟩

/-- A name in no table is looked up in vain if nothing is read in front of it. -/
theorem run_of_isNone (first : l.reads = []) (h : Index.opcodeOf? l.name = none) :
    l.run ctx = .error (.noRegister l.name) := by
  rw [run, first, h]
  rfl

end LookUp

namespace Instruction

variable {i : Instruction}

/-- What is looked up is the index register in an operand. -/
theorem exists_of_mem_lookUps {l : LookUp} (h : l ∈ i.lookUps) :
    ∃ o ∈ i.operands, o.indexName? = some l.name := by
  unfold lookUps at h
  split at h
  case h_1 target source _ operands =>
      rw [operands]
      cases List.mem_append.mp h with
      | inl ht => exact ⟨target, List.mem_cons_self, LookUp.mem_of ht⟩
      | inr hs => exact ⟨source, List.mem_cons_of_mem target List.mem_cons_self, LookUp.mem_of hs⟩
  case h_3 first source _ operands =>
      split at h
      · exact ⟨source, by simp [operands], LookUp.mem_of h⟩
      · cases h
  case h_7 number o _ operands =>
      split at h
      · exact ⟨o, by simp [operands], LookUp.mem_of h⟩
      · cases h
  case h_8 o _ operands =>
      split at h
      · exact ⟨o, by simp [operands], LookUp.mem_of h⟩
      · cases h
  case h_9 => cases h
  all_goals exact ⟨_, by simp [*], LookUp.mem_of h⟩

/-- No operand names an index register that is in no table. -/
def Tabled (i : Instruction) : Prop := ∀ o ∈ i.operands, o.strayName? = none

/-- The fault is that of an operand which names an index register that is in no table. -/
def Strays (i : Instruction) (fault : Fault) : Prop :=
  ∃ o ∈ i.operands, ∃ name, o.strayName? = some name ∧ fault = .noRegister name

/-- Before anything is read, an index register is looked up that is in no table. -/
def Misses (i : Instruction) : Prop :=
  ∃ l ∈ i.lookUps, l.reads = [] ∧ Index.opcodeOf? l.name = none

theorem Misses.checkedEncode_ne_ok (h : i.Misses) (code : Except Cause (List Nat)) :
    i.checkedEncode ctx ≠ .ok code := by
  intro encoded
  obtain ⟨l, mem, first, unknown⟩ := h
  rw [checkedEncode] at encoded
  obtain ⟨_, found, -⟩ := bind_eq_ok.mp encoded
  obtain ⟨_, -, ran⟩ := exists_of_mapM_eq_ok found mem
  rw [LookUp.run_of_isNone first unknown] at ran
  cases ran

theorem Strays.mem {fault : Fault} (h : i.Strays fault) :
    fault ∈ [.noRegister "İX", .noRegister "İY"] := by
  obtain ⟨o, -, name, stray, rfl⟩ := h
  exact List.mem_map_of_mem (f := Fault.noRegister) (Operand.mem_of_strayName? stray)

theorem Tabled.exchangesStray (h : i.Tabled) : i.exchangesStray = false := by
  unfold Instruction.exchangesStray
  split
  case h_1 first second _ operands =>
      rw [h second (by simp [operands]), Option.isSome_none, Bool.and_false]
  case h_2 => rfl

theorem checkedBytes_eq {bytes : List Nat} (h : ∀ b ∈ bytes, b < 256) :
    bytes.mapM checkedByte = .ok bytes := by
  rw [mapM_eq_ok (g := id) fun b hb => by rw [checkedByte, if_pos (h b hb)]; rfl, List.map_id]

section

variable (operation : Operation) (args : List Char)

/-- Where the table has all names, the code is that of `encode`. -/
theorem checkedEncode_eq (h : (ofArgs operation args).Tabled) :
    (ofArgs operation args).checkedEncode ctx = .ok ((ofArgs operation args).encode ctx) := by
  have found : ∀ l ∈ (ofArgs operation args).lookUps, l.run ctx = .ok () := by
    intro l hl
    obtain ⟨o, ho, named⟩ := exists_of_mem_lookUps hl
    exact LookUp.run_of_isSome (Operand.isSome_opcodeOf? (h o ho) named)
  rw [checkedEncode, mapM_eq_ok found, h.exchangesStray]
  cases he : (ofArgs operation args).encode ctx with
  | error cause => rfl
  | ok bytes =>
      simp only [bind, Except.bind, Bool.false_eq_true, if_false,
        checkedBytes_eq (lt_of_mem_encode he)]
      rfl

/-- A fault comes from a name that is in no table. -/
theorem strays_of_checkedEncode {fault : Fault}
    (h : (ofArgs operation args).checkedEncode ctx = .error fault) :
    (ofArgs operation args).Strays fault := by
  rw [checkedEncode] at h
  obtain hl | ⟨-, -, h⟩ := bind_eq_error.mp h
  · obtain ⟨l, mem, failed⟩ := exists_of_mapM_eq_error hl
    obtain ⟨unknown, rfl⟩ := LookUp.fault_of_run failed
    obtain ⟨o, ho, named⟩ := exists_of_mem_lookUps mem
    refine ⟨o, ho, l.name, ?_, rfl⟩
    rw [Operand.strayName?, named, Option.filter_some, unknown]
    rfl
  split at h
  · cases h
  cases he : (ofArgs operation args).encode ctx with
  | error cause => rw [he] at h; cases h
  | ok bytes =>
      rw [he] at h
      simp only [checkedBytes_eq (lt_of_mem_encode he)] at h
      cases h

theorem checkedSize?_eq (h : (ofArgs operation args).Tabled) (symbols : Symbols) :
    (ofArgs operation args).checkedSize? symbols =
      .ok ((ofArgs operation args).size? symbols) := by
  rw [checkedSize?, checkedEncode_eq operation args h, size?]
  cases (ofArgs operation args).encode { scope := { symbols }, lenient := true } <;> rfl

theorem strays_of_checkedSize? {fault : Fault} {symbols : Symbols}
    (h : (ofArgs operation args).checkedSize? symbols = .error fault) :
    (ofArgs operation args).Strays fault := by
  rw [checkedSize?] at h
  obtain he | ⟨code, -, h⟩ := bind_eq_error.mp h
  · exact strays_of_checkedEncode operation args he
  · cases code <;> cases h

end

end Instruction

end Z80Workbench
