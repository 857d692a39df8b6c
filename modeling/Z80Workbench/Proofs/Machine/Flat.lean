import Z80Workbench.Proofs.Except
import Z80Workbench.Proofs.Machine.WellFormed

/-!
# Z80Workbench.Proofs.Machine.Flat

Memory as a program sees it.  A byte that the program has written, and one that the static image
has where nothing has been written, read the same, so it makes no difference which of the two holds
a byte.  To show this, a machine is compared with a flat one, in which every byte has been written:
whatever an instruction does to the machine, it does to the flat one without any image.
-/

namespace Z80Workbench

/-! ## flat memory -/

namespace Memory

/-- The byte that is seen at an address: that of `front`, or else of `back`, or else zero. -/
def visible (front back : Memory) (address : Nat) : Nat :=
  ((front.get? address).or (back.get? address)).getD 0

/-- What is seen at every address, as one memory. -/
def flat (front back : Memory) : Memory :=
  ⟨.ofList ((List.range 65536).map fun address => (address, front.visible back address))⟩

variable {front back front' back' : Memory} {address value : Nat}

theorem visible_mod (front back : Memory) (address : Nat) :
    front.visible back (address % 65536) = front.visible back address := by
  simp only [visible, get?, Nat.mod_mod]

/-- A flat memory has a cell for each address. -/
theorem cells_flat (front back : Memory) (address : Nat) :
    (front.flat back).cells[address]? =
      if address < 65536 then some (front.visible back address) else none := by
  split
  case isTrue h =>
      refine Std.ExtTreeMap.getElem?_ofList_of_mem (Nat.compare_eq_eq.mpr rfl) ?distinct ?found
      case distinct =>
          rw [List.pairwise_map]
          exact List.nodup_range.imp fun ne same => ne (Nat.compare_eq_eq.mp same)
      case found => exact List.mem_map.mpr ⟨address, List.mem_range.mpr h, rfl⟩
  case isFalse h =>
      refine Std.ExtTreeMap.getElem?_ofList_of_contains_eq_false ?_
      simpa [List.contains_iff_mem] using h

@[simp] theorem get?_flat (front back : Memory) (address : Nat) :
    (front.flat back).get? address = some (front.visible back address) := by
  rw [get?, cells_flat, if_pos (Nat.mod_lt _ (by decide)), visible_mod]

/-- Two memories that show the same at every address become the same. -/
theorem flat_congr (h : ∀ address, front.visible back address = front'.visible back' address) :
    front.flat back = front'.flat back' := by
  rw [flat, flat, funext h]

theorem visible_set (front back : Memory) (address value other : Nat) :
    (front.set address value).visible back other =
      if address % 65536 = other % 65536 then value % 256 else front.visible back other := by
  rw [visible, get?_set]
  split <;> rfl

/-- A byte can be stored before or after a memory is made flat. -/
theorem flat_set (front back : Memory) (address value : Nat) :
    (front.set address value).flat back = (front.flat back).set address value := by
  suffices same : ∀ k, ((front.set address value).flat back).cells[k]? =
      ((front.flat back).set address value).cells[k]? from
    congrArg Memory.mk (Std.ExtTreeMap.ext_getElem? same)
  intro k
  rw [cells_flat, visible_set, set, Std.ExtTreeMap.getElem?_insert, cells_flat]
  by_cases inside : k < 65536
  case pos =>
      simp only [if_pos inside, Nat.mod_eq_of_lt inside, Nat.compare_eq_eq]
      split <;> rfl
  case neg =>
      have apart : address % 65536 ≠ k := fun same => inside (same ▸ Nat.mod_lt _ (by decide))
      simp [inside, apart]

/-! ## overlays -/

/-- Storing bytes leaves the addresses at which none is stored as they are. -/
theorem get?_foldl_of_ne {cells : List (Nat × Nat)} {address : Nat}
    (h : ∀ cell ∈ cells, cell.1 % 65536 ≠ address % 65536) (memory : Memory) :
    (cells.foldl (fun m cell => m.set cell.1 cell.2) memory).get? address =
      memory.get? address := by
  induction cells generalizing memory with
  | nil => rfl
  | cons cell rest ih =>
      rw [List.foldl_cons, ih fun other hm => h other (List.mem_cons_of_mem _ hm), get?_set,
        if_neg (h cell List.mem_cons_self)]

/-- A byte that is stored among others at different addresses is found. -/
theorem get?_foldl_of_mem {cells : List (Nat × Nat)} {address value : Nat}
    (distinct : cells.Pairwise fun a b => a.1 % 65536 ≠ b.1 % 65536)
    (h : (address, value) ∈ cells) (memory : Memory) :
    (cells.foldl (fun m cell => m.set cell.1 cell.2) memory).get? address =
      some (value % 256) := by
  induction cells generalizing memory with
  | nil => cases h
  | cons cell rest ih =>
      obtain ⟨apart, distinct⟩ := List.pairwise_cons.mp distinct
      rw [List.foldl_cons]
      obtain rfl | later := List.mem_cons.mp h
      · rw [get?_foldl_of_ne fun other hm => (apart other hm).symm, get?_set, if_pos rfl]
      · exact ih distinct later _

/-- An overlay has the bytes of the memory in front, and those behind it elsewhere. -/
theorem get?_overlay (wf : front.WellFormed) (back : Memory) (address : Nat) :
    (front.overlay back).get? address = (front.get? address).or (back.get? address) := by
  have cell_lt : ∀ cell ∈ front.toList, cell.1 < 65536 := fun cell hm =>
    (wf _ _ (Std.ExtTreeMap.mem_toList_iff_getElem?_eq_some.mp hm)).1
  have distinct : front.toList.Pairwise fun a b => a.1 % 65536 ≠ b.1 % 65536 := by
    refine Std.ExtTreeMap.distinct_keys_toList.imp_of_mem fun ha hb ne same => ne ?_
    rw [Nat.mod_eq_of_lt (cell_lt _ ha), Nat.mod_eq_of_lt (cell_lt _ hb)] at same
    exact Nat.compare_eq_eq.mpr same
  cases found : front.get? address with
  | some value =>
      have hm : (address % 65536, value) ∈ front.toList :=
        Std.ExtTreeMap.mem_toList_iff_getElem?_eq_some.mpr found
      have read := get?_foldl_of_mem distinct hm back
      rw [get?, Nat.mod_mod] at read
      rw [Option.some_or, ← Nat.mod_eq_of_lt (wf.get?_lt found)]
      exact read
  | none =>
      refine get?_foldl_of_ne (fun cell hm same => ?_) back
      have here := Std.ExtTreeMap.mem_toList_iff_getElem?_eq_some.mp hm
      rw [← Nat.mod_eq_of_lt (cell_lt cell hm), same] at here
      cases found.symm.trans here

end Memory

namespace Machine

/-- The same names, and no image. -/
def Env.bare (env : Env) : Env := { env with image := ∅ }

/-- The machine in which everything that can be seen in memory has been written. -/
def flat (env : Env) (m : Machine) : Machine := { m with memory := m.memory.flat env.image }

variable {env : Env} {m : Machine}

@[simp] theorem Env.value?_bare : env.bare.value? = env.value? := rfl

/-! ## reading and writing -/

@[simp] theorem registers_flat : (m.flat env).registers = m.registers := rfl

@[simp] theorem flags_flat : (m.flat env).flags = m.flags := rfl

@[simp] theorem video_flat : (m.flat env).video = m.video := rfl

/-- What is seen in the flat machine does not depend on an image. -/
@[simp] theorem byteAt_flat (env' : Env) : (m.flat env).byteAt env' = m.byteAt env := by
  funext address
  rw [byteAt, flat, Memory.get?_flat]
  rfl

@[simp] theorem wordAt_flat : (m.flat env).wordAt env.bare = m.wordAt env := by
  funext address
  simp only [wordAt, byteAt_flat]

@[simp] theorem store_flat (address value : Nat) :
    (m.flat env).store address value = (m.store address value).flat env := by
  rw [store, store, flat, flat, Memory.flat_set]

@[simp] theorem storeWord_flat (address value : Nat) :
    (m.flat env).storeWord address value = (m.storeWord address value).flat env := by
  simp only [storeWord, store_flat]

@[simp] theorem pair_flat (p : Pair) : (m.flat env).pair p = m.pair p := rfl

theorem setPair_flat (p : Pair) (value : Nat) :
    (m.flat env).setPair p value = (m.setPair p value).map (·.flat env) := by
  unfold setPair
  split
  · rfl
  · rw [registers_flat]
    cases m.registers.setPair? p value <;> rfl

@[simp] theorem setSp_flat (value : Nat) :
    (m.flat env).setSp value = (m.setSp value).flat env := rfl

@[simp] theorem push_flat (value : Nat) : (m.flat env).push value = (m.push value).flat env := by
  unfold push
  rw [setSp_flat, registers_flat]
  exact storeWord_flat _ _

@[simp] theorem top_flat : (m.flat env).top env.bare = m.top env := by
  rw [top, wordAt_flat, registers_flat, top]

@[simp] theorem popPc_flat : (m.flat env).popPc env.bare = (m.popPc env).flat env := by
  rw [popPc, top_flat]
  rfl

theorem addressOf?_flat (mode : Mode) :
    (m.flat env).addressOf? env.bare mode = m.addressOf? env mode := by
  cases mode <;> rfl

@[simp] theorem byteOf?_flat (mode : Mode) :
    (m.flat env).byteOf? env.bare mode = m.byteOf? env mode := by
  cases mode with
  | reg8 | immediate | reg16 => rfl
  | indirect | indexed | absolute => simp only [byteOf?, addressOf?_flat, byteAt_flat]

theorem setByte?_flat (mode : Mode) (value : Nat) :
    (m.flat env).setByte? env.bare mode value = (m.setByte? env mode value).map (·.flat env) := by
  cases mode with
  | reg8 => rfl
  | _ => simp [setByte?, addressOf?_flat, Function.comp_def]

@[simp] theorem wordOf?_flat (mode : Mode) :
    (m.flat env).wordOf? env.bare mode = m.wordOf? env mode := by
  cases mode with
  | absolute => simp only [wordOf?, wordAt_flat]; rfl
  | _ => rfl

/-! ## loads and exchanges -/

theorem loadMemory_flat (target source : Mode) :
    (m.flat env).loadMemory env.bare target source = (m.loadMemory env target source).flat env := by
  simp only [loadMemory, addressOf?_flat, byteOf?_flat, pair_flat, storeWord_flat, store_flat]
  split
  · rfl
  · split <;> rfl
  · rfl

theorem load_flat (target source : Mode) :
    (m.flat env).load env.bare target source = (m.load env target source).flat env := by
  simp only [load, byteOf?_flat, wordOf?_flat, loadMemory_flat]
  split
  case h_1 | h_2 | h_5 | h_6 => rfl
  case h_3 => split <;> rfl
  case h_4 => split <;> rfl

theorem exchangeTop_flat (p : Pair) :
    (m.flat env).exchangeTop env.bare p = (m.exchangeTop env p).map (·.flat env) := by
  unfold exchangeTop
  split
  · rfl
  · simp only [registers_flat, pair_flat, storeWord_flat, top_flat, setPair_flat]

theorem exchange_flat (first second : Mode) :
    (m.flat env).exchange env.bare first second =
      (m.exchange env first second).map (·.flat env) := by
  simp only [exchange, exchangeTop_flat]
  split
  case h_1 | h_2 | h_3 => rfl
  case h_4 => split <;> rfl

/-! ## arithmetic, shifts and bits -/

theorem accumulate_flat (op : Alu) (source : Mode) :
    (m.flat env).accumulate env.bare op source = (m.accumulate env op source).flat env := by
  simp only [accumulate, byteOf?_flat]
  split <;> rfl

theorem accumulatePair_flat (op : Alu) (p : Pair) (source : Mode) :
    (m.flat env).accumulatePair env.bare op p source =
      (m.accumulatePair env op p source).flat env := by
  simp only [accumulatePair, wordOf?_flat, pair_flat, flags_flat]
  split
  · split <;> rfl
  · rfl

theorem arithmetic_flat (op : Alu) (modes : List Mode) :
    (m.flat env).arithmetic env.bare op modes = (m.arithmetic env op modes).flat env := by
  simp only [arithmetic, accumulatePair_flat, accumulate_flat]
  split <;> rfl

theorem countByte_flat (down : Bool) (mode : Mode) (value : Nat) :
    (m.flat env).countByte env.bare down mode value =
      (m.countByte env down mode value).flat env := by
  simp only [countByte, setByte?_flat]
  cases m.setByte? env mode _ <;> rfl

theorem count_flat (down : Bool) (mode : Mode) :
    (m.flat env).count env.bare down mode = (m.count env down mode).flat env := by
  simp only [count, byteOf?_flat, countByte_flat]
  split
  case h_1 | h_2 => rfl
  case h_3 => split <;> rfl

theorem shift_flat (op : Shift) (mode : Mode) :
    (m.flat env).shift env.bare op mode = (m.shift env op mode).flat env := by
  simp only [shift, byteOf?_flat, setByte?_flat, flags_flat]
  split
  case h_1 => rfl
  case h_2 =>
      split
      case h_1 => cases m.setByte? env mode _ <;> rfl
      case h_2 => rfl

theorem changeBit_flat (action : BitAction) (number mode : Mode) :
    (m.flat env).changeBit env.bare action number mode =
      (m.changeBit env action number mode).flat env := by
  have written : ∀ value, ((m.setByte? env mode value).map (·.flat env)).getD (m.flat env) =
      ((m.setByte? env mode value).getD m).flat env := fun value => Option.getD_map _ _ _
  simp only [changeBit, Env.value?_bare, byteOf?_flat, setByte?_flat, written]
  split
  case h_1 =>
      split
      · cases action <;> rfl
      · rfl
  case h_2 => rfl

theorem setDigits_flat (a value : Nat) :
    (m.flat env).setDigits a value = (m.setDigits a value).flat env := by
  simp only [setDigits, registers_flat, store_flat, flags_flat]
  rfl

theorem rotateDigitLeft_flat :
    (m.flat env).rotateDigitLeft env.bare = (m.rotateDigitLeft env).flat env := by
  simp only [rotateDigitLeft, registers_flat, byteAt_flat, setDigits_flat]

theorem rotateDigitRight_flat :
    (m.flat env).rotateDigitRight env.bare = (m.rotateDigitRight env).flat env := by
  simp only [rotateDigitRight, registers_flat, byteAt_flat, setDigits_flat]

/-! ## control transfers and ports -/

@[simp] theorem setPc_flat (value : Nat) :
    (m.flat env).setPc value = (m.setPc value).flat env := rfl

theorem jump_flat (target : Option Mode) :
    (m.flat env).jump env.bare target = (m.jump env target).flat env := by
  simp only [jump, Env.value?_bare]
  split
  case h_1 | h_2 | h_4 => rfl
  case h_3 => split <;> rfl

theorem block_flat (address length : Nat) :
    (m.flat env).block env.bare address length = m.block env address length := by
  simp only [block, byteAt_flat]

theorem callFirmware_flat (address : Nat) :
    (m.flat env).callFirmware env.bare address = (m.callFirmware env address).flat env := by
  simp only [callFirmware, block_flat]
  split
  · rfl
  split
  · rfl
  split <;> rfl

theorem call_flat (length : Nat) (target : Option Mode) :
    (m.flat env).call env.bare length target = (m.call env length target).flat env := by
  simp only [call, Env.value?_bare, registers_flat, push_flat, setPc_flat, callFirmware_flat]
  split <;> rfl

theorem portOf?_flat (mode : Mode) :
    (m.flat env).portOf? env.bare mode = m.portOf? env mode := by
  cases mode with
  | indirect p => cases p <;> rfl
  | _ => rfl

theorem output_flat (port source : Mode) :
    (m.flat env).output env.bare port source = (m.output env port source).flat env := by
  simp only [output, portOf?_flat, byteOf?_flat]
  split <;> rfl

theorem input_flat (target port : Mode) :
    (m.flat env).input env.bare target port = (m.input env target port).flat env := by
  simp only [input, portOf?_flat, video_flat]
  split <;> rfl

/-! ## block instructions -/

/-- Steps that do the same with the flat machine, do the same with it however often they are
repeated. -/
theorem iterate_flat {step bare : Machine → Machine}
    (h : ∀ m : Machine, bare (m.flat env) = (step m).flat env) (n : Nat) :
    iterate bare n (m.flat env) = (iterate step n m).flat env := by
  induction n generalizing m with
  | zero => rfl
  | succ n ih => rw [iterate, h, ih, iterate]

theorem setHl_flat (value : Nat) : (m.flat env).setHl value = (m.setHl value).flat env := rfl

theorem countBc_flat : (m.flat env).countBc = m.countBc.flat env := rfl

theorem flagBc_flat : (m.flat env).flagBc = m.flagBc.flat env := rfl

theorem flagB_flat : (m.flat env).flagB = m.flagB.flat env := rfl

theorem copyByte_flat (down : Bool) :
    (m.flat env).copyByte env.bare down = (m.copyByte env down).flat env := by
  simp only [copyByte, registers_flat, byteAt_flat, store_flat]
  rfl

theorem searchByte_flat (down : Bool) :
    (m.flat env).searchByte env.bare down = (m.searchByte env down).flat env := by
  unfold searchByte
  rw [byteAt_flat, registers_flat, flags_flat, setHl_flat]
  refine Eq.trans ?_ countBc_flat
  rfl

theorem searchBlock_flat (down : Bool) (n : Nat) :
    (m.flat env).searchBlock env.bare down n = (m.searchBlock env down n).flat env := by
  induction n generalizing m with
  | zero => rfl
  | succ n ih =>
      simp only [searchBlock, searchByte_flat, flags_flat, ih]
      split <;> rfl

theorem sendByte_flat (down : Bool) :
    (m.flat env).sendByte env.bare down = (m.sendByte env down).flat env := by
  simp only [sendByte, registers_flat, byteAt_flat]
  rfl

theorem receiveByte_flat (down : Bool) :
    (m.flat env).receiveByte down = (m.receiveByte down).flat env := by
  simp only [receiveByte, registers_flat, video_flat, store_flat]
  split <;> rfl

theorem blockCopy_flat (stride : Stride) :
    (m.flat env).blockCopy env.bare stride = (m.blockCopy env stride).flat env :=
  (congrArg flagBc (iterate_flat (·.copyByte_flat stride.down) _)).trans flagBc_flat

theorem blockSearch_flat (stride : Stride) :
    (m.flat env).blockSearch env.bare stride = (m.blockSearch env stride).flat env :=
  (congrArg flagBc (m.searchBlock_flat stride.down _)).trans flagBc_flat

theorem blockInput_flat (stride : Stride) :
    (m.flat env).blockInput stride = (m.blockInput stride).flat env :=
  (congrArg flagB (iterate_flat (·.receiveByte_flat stride.down) _)).trans flagB_flat

theorem blockOutput_flat (stride : Stride) :
    (m.flat env).blockOutput env.bare stride = (m.blockOutput env stride).flat env :=
  (congrArg flagB (iterate_flat (·.sendByte_flat stride.down) _)).trans flagB_flat

/-! ## all instructions -/

theorem perform_flat (mnemonic : Mnemonic) (condition : Option Condition) (modes : List Mode) :
    (m.flat env).perform env.bare mnemonic condition modes =
      (m.perform env mnemonic condition modes).map (·.flat env) := by
  have popped : ∀ p, (m.flat env).drop.setPair p (m.top env) =
      (m.drop.setPair p (m.top env)).map (·.flat env) := fun p => m.drop.setPair_flat p _
  simp only [perform, load_flat, pair_flat, push_flat, top_flat, popped, exchange_flat,
    arithmetic_flat, count_flat, shift_flat, changeBit_flat, rotateDigitLeft_flat,
    rotateDigitRight_flat, flags_flat, jump_flat, call_flat, popPc_flat, input_flat, output_flat,
    blockCopy_flat, blockSearch_flat, blockInput_flat, blockOutput_flat]
  split
  case h_18 | h_19 | h_21 | h_23 => split <;> rfl
  all_goals rfl

theorem execute_flat (i : Instruction) :
    (m.flat env).execute env.bare i = (m.execute env i).map (·.flat env) := by
  simp only [execute, perform_flat]
  split <;> rfl

theorem executeAt_flat (i : Instruction) (address : Option Nat) :
    (m.flat env).executeAt env.bare i address = (m.executeAt env i address).map (·.flat env) := by
  cases address with
  | none => exact execute_flat i
  | some address => exact (m.setPc address).execute_flat i

theorem runText_flat (text : String) (address : Option Nat) :
    (m.flat env).runText env.bare text address =
      (m.runText env text address).map (·.flat env) := by
  simp only [runText, runLine, executeAt_flat]
  split
  · split <;> rfl
  · rfl

/-- Executes lines of source text one after the other, each at its address if it has one. -/
def runTexts (env : Env) (m : Machine) (lines : List (String × Option Nat)) :
    Except UnknownRegister Machine :=
  lines.foldlM (fun m line => m.runText env line.1 line.2) m

theorem runTexts_flat (lines : List (String × Option Nat)) :
    (m.flat env).runTexts env.bare lines = (m.runTexts env lines).map (·.flat env) := by
  induction lines generalizing m with
  | nil => rfl
  | cons line rest ih =>
      simp only [runTexts, List.foldlM_cons] at ih ⊢
      rw [runText_flat]
      cases m.runText env line.1 line.2 with
      | error e => rfl
      | ok n => exact ih

/-! ## machines that look the same -/

/-- The machines, each over the image of its environment, look the same to a program: they have the
same registers, flags and video chip, and the same byte is read at every address. -/
structure LooksLike (env env' : Env) (m n : Machine) : Prop where
  registers : m.registers = n.registers
  flags : m.flags = n.flags
  video : m.video = n.video
  bytes : ∀ address, m.byteAt env address = n.byteAt env' address

/-- Machines look the same exactly if the same machine is flat for both. -/
theorem looksLike_iff {env' : Env} {n : Machine} :
    LooksLike env env' m n ↔ m.flat env = n.flat env' := by
  constructor
  · rintro ⟨registers, flags, video, bytes⟩
    rw [flat, flat, registers, flags, video, Memory.flat_congr bytes]
  · intro h
    refine ⟨congrArg (·.registers) h, congrArg (·.flags) h, congrArg (·.video) h, ?_⟩
    intro address
    rw [← m.byteAt_flat env, ← n.byteAt_flat env, h]

/-- The flat machine looks like the machine, whatever image it is put over. -/
theorem looksLike_flat (env' : Env) : LooksLike env' env (m.flat env) m where
  registers := rfl
  flags := rfl
  video := rfl
  bytes address := by rw [byteAt_flat]

theorem LooksLike.symm {env' : Env} {n : Machine} (h : LooksLike env env' m n) :
    LooksLike env' env n m :=
  looksLike_iff.mpr (looksLike_iff.mp h).symm

/-- Lines do the same to machines that look the same, whatever the images of the two are. -/
theorem runTexts_alike {env' : Env} {n : Machine} (same : env.bare = env'.bare)
    (h : LooksLike env env' m n) (lines : List (String × Option Nat)) :
    Alike (LooksLike env env') (m.runTexts env lines) (n.runTexts env' lines) := by
  have flats : (m.runTexts env lines).map (·.flat env) =
      (n.runTexts env' lines).map (·.flat env') := by
    rw [← runTexts_flat, ← runTexts_flat, looksLike_iff.mp h, same]
  exact (alike_of_map_eq flats).imp fun _ _ => looksLike_iff.mpr

/-- If memory holds the bytes of the image where the program has written none, the image can be
left out. -/
theorem looksLike_merged {merged : Memory}
    (h : ∀ address, merged.get? address =
      (m.memory.get? address).or (env.image.get? address)) :
    LooksLike env env.bare m { m with memory := merged } where
  registers := rfl
  flags := rfl
  video := rfl
  bytes address := by simp [byteAt, h, Env.bare]

end Machine

end Z80Workbench
