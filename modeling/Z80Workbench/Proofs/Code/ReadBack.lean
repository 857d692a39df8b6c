import Z80Workbench.Proofs.Code.Decode
import Z80Workbench.Proofs.Code.Length
import Z80Workbench.Proofs.Machine.Spelling

/-!
# Z80Workbench.Proofs.Code.ReadBack

Filling a row of fields and reading the bytes back.  The reader takes exactly the bytes of the row
from the front of any bytes that begin with them, however the fields were filled.  That the
command it reads does the same as the instruction of the row takes more: names must mean in the
code what they mean in the machine, and the address must be known.
-/

namespace Z80Workbench

/-- The context fills fields for an instruction at an address with the values that expressions
have in an environment. -/
structure Context.Matches (ctx : Context) (env : Machine.Env) (address : Nat) : Prop where
  scope : ctx.scope = env.scope
  address : ctx.address = some address
  strict : ctx.lenient = false

/-- The bytes read back as a command that does what the given one does. -/
def ReadsBack (ctx : Context) (env : Machine.Env) (address : Nat) (c : Command)
    (bytes : List Nat) : Prop :=
  ∃ d, (∀ rest, Reader.decode address (bytes ++ rest) = some (d, rest)) ∧
    (ctx.Matches env address → ∀ m, d.run env m = c.run env m)

/-- However the form is filled, its bytes read back. -/
def Form.ReadsBack (ctx : Context) (env : Machine.Env) (address : Nat) (c : Command)
    (form : Form) : Prop :=
  ∀ fields, form.code? = some fields → ∀ bytes, Field.fillAll ctx fields = .ok bytes →
    Z80Workbench.ReadsBack ctx env address c bytes

variable {ctx : Context} {env : Machine.Env} {address : Nat}

/-! ## values -/

theorem signed_eight (n : Int) : signed 8 n = n.bmod 256 := rfl

theorem signed_sixteen (n : Int) : signed 16 n = n.bmod 65536 := rfl

theorem signed_byte {d : Int} (h : Field.fitsByte d = true) : signed 8 (byte d) = d := by
  simp only [Field.fitsByte, Bool.and_eq_true, decide_eq_true_eq] at h
  rw [signed_eight, byte, Int.bmod_def]
  split <;> omega

theorem word_signed {n : Nat} (h : n < 65536) : word (signed 16 n) = n := by
  rw [signed_sixteen, word, Int.bmod_def]
  split <;> omega

theorem word_add_distance {target : Nat} (h : target < 65536) :
    word (address + 2 + Field.distance address target) = target := by
  rw [Field.distance, signed_sixteen, word, Int.bmod_def]
  split <;> omega

theorem Expr.value?_ofNat {scope : Scope} {n : Nat} (h : n < 65536) :
    (ofNat n).value? scope = some n := by
  show some (word n) = some n
  rw [word_natCast h]

namespace Context

theorem value_lt {e : Expr} {n : Nat} (h : ctx.value e = .ok n) : n < 65536 := by
  unfold value at h
  split at h
  · rename_i k hk
    cases h
    exact Expr.value?_lt hk
  · split at h
    · cases h
      decide
    · contradiction

theorem Matches.value (hm : ctx.Matches env address) {e : Expr} {n : Nat}
    (h : ctx.value e = .ok n) : e.value? env.scope = some n := by
  unfold Context.value at h
  rw [hm.scope, hm.strict] at h
  split at h
  · rename_i k hk
    cases h
    exact hk
  · contradiction

end Context

/-! ## filling rows -/

namespace Field

theorem fillAll_append {front back : List Field} {bytes : List Nat} :
    fillAll ctx (front ++ back) = .ok bytes ↔
      ∃ a b, fillAll ctx front = .ok a ∧ fillAll ctx back = .ok b ∧ a ++ b = bytes := by
  induction front generalizing bytes with
  | nil => simp [fillAll]
  | cons field rest ih =>
      simp only [List.cons_append, fillAll, bind_eq_ok, ih, pure, Except.pure, Except.ok.injEq]
      constructor
      · rintro ⟨f, hf, _, ⟨r, b, hr, hb, rfl⟩, rfl⟩
        exact ⟨_, b, ⟨f, hf, r, hr, rfl⟩, hb, by simp⟩
      · rintro ⟨_, b, ⟨f, hf, r, hr, rfl⟩, hb, rfl⟩
        exact ⟨f, hf, _, ⟨r, b, hr, hb, rfl⟩, by simp⟩

theorem fillAll_singleton {field : Field} {bytes : List Nat} :
    fillAll ctx [field] = .ok bytes ↔ field.fill ctx = .ok bytes := by
  simp [fillAll, bind_eq_ok, pure, Except.pure]

theorem fillAll_opcodes (code : List Nat) : fillAll ctx (code.map opcode) = .ok code := by
  induction code with
  | nil => rfl
  | cons n rest ih => simp [fillAll, fill, ih, bind, Except.bind, pure, Except.pure]

end Field

/-! ## forms -/

namespace Form

variable {c : Command} {code : List Nat}

theorem readsBack_refused {reads : List Field} : (refused reads).ReadsBack ctx env address c :=
  fun _ h => nomatch h

theorem readsBack_unsupported : unsupported.ReadsBack ctx env address c := readsBack_refused

theorem readsBack_fixed (d : Command)
    (hd : ∀ rest, Reader.decode address (code ++ rest) = some (d, rest))
    (hs : ∀ m, d.run env m = c.run env m) : (fixed code).ReadsBack ctx env address c := by
  rintro _ ⟨⟩ bytes hb
  rw [Field.fillAll_opcodes] at hb
  cases hb
  exact ⟨d, hd, fun _ => hs⟩

theorem readsBack_withByte {e : Expr} (d : Expr → Command)
    (hd : ∀ b rest, Reader.decode address (code ++ b :: rest) = some (d (.ofNat b), rest))
    (hs : ∀ f n, e.value? env.scope = some n → f.value? env.scope = some (lowByte n) →
      ∀ m, (d f).run env m = c.run env m) :
    (withByte code e).ReadsBack ctx env address c := by
  rintro _ ⟨⟩ bytes hb
  obtain ⟨_, _, ho, he, rfl⟩ := Field.fillAll_append.mp hb
  rw [Field.fillAll_opcodes] at ho
  cases ho
  obtain ⟨n, hn, rfl⟩ := map_eq_ok.mp (Field.fillAll_singleton.mp he)
  refine ⟨d (.ofNat (lowByte n)), fun rest => by simpa using hd (lowByte n) rest, fun hm => ?_⟩
  exact hs _ n (hm.value hn) (Expr.value?_ofNat (by have := lowByte_lt n; omega))

theorem readsBack_withWord {e : Expr} (d : Expr → Command)
    (hd : ∀ low high rest, Reader.decode address (code ++ low :: high :: rest) =
      some (d (.ofNat (wordOf high low)), rest))
    (hs : ∀ f : Expr, f.value? env.scope = e.value? env.scope →
      ∀ m, (d f).run env m = c.run env m) :
    (withWord code e).ReadsBack ctx env address c := by
  rintro _ ⟨⟩ bytes hb
  obtain ⟨_, _, ho, he, rfl⟩ := Field.fillAll_append.mp hb
  rw [Field.fillAll_opcodes] at ho
  cases ho
  obtain ⟨n, hn, rfl⟩ := map_eq_ok.mp (Field.fillAll_singleton.mp he)
  have lt : n < 65536 := Context.value_lt hn
  refine ⟨d (.ofNat n), fun rest => ?_, fun hm => hs _ ?_⟩
  · simpa [wordBytes, wordOf_highByte_lowByte lt] using hd (lowByte n) (highByte n) rest
  · rw [hm.value hn, Expr.value?_ofNat lt]

theorem readsBack_relative {opcode : Nat} {e : Expr} (d : Expr → Command)
    (hd : ∀ b rest, Reader.decode address (opcode :: b :: rest) =
      some (d (.ofNat (word (address + 2 + signed 8 b))), rest))
    (hs : ∀ f : Expr, f.value? env.scope = e.value? env.scope →
      ∀ m, (d f).run env m = c.run env m) :
    (Form.code [.opcode opcode, .relative e]).ReadsBack ctx env address c := by
  rintro _ ⟨⟩ bytes hb
  obtain ⟨_, ho, hb⟩ := bind_eq_ok.mp hb
  obtain ⟨_, hr, hb⟩ := bind_eq_ok.mp hb
  cases ho
  cases hb
  have hr := Field.fillAll_singleton.mp hr
  obtain ⟨b, _, rfl⟩ := Field.exists_of_fillRelative hr
  refine ⟨_, hd b, fun hm => hs _ ?_⟩
  simp only [Field.fill, Field.fillRelative, hm.scope, hm.address, hm.strict] at hr
  cases he : e.value? env.scope with
  | none => simp [he] at hr
  | some n =>
      have lt : n < 65536 := Expr.value?_lt he
      simp only [he] at hr
      split at hr
      case isFalse => cases hr
      case isTrue fits =>
          cases hr
          rw [signed_byte fits, word_add_distance lt, Expr.value?_ofNat lt]

end Form

/-! ## places -/

namespace Reader

variable {α β : Type} {bytes middle rest : List Nat}

/-- What is read after a value is read from where the value ends. -/
theorem bind_of_eq {read : Reader α} {next : α → Reader β} {value : α}
    (h : read bytes = some (value, middle)) : (read >>= next) bytes = next value middle := by
  show (read bytes >>= fun result => next result.1 result.2) = _
  rw [h]
  rfl

/-- A value that is there takes nothing off. -/
theorem lift_of_eq {value? : Option α} {value : α} (h : value? = some value) :
    (liftM value? : Reader α) bytes = some (value, bytes) := by
  rw [h]
  rfl

/-- The bytes of an index prefix, if there is one. -/
def opening (x? : Option Index) : List Nat := x?.toList.map Index.opcode

theorem decode_opening (x? : Option Index) {opcode : Nat} (h : Index.ofOpcode? opcode = none)
    (rest : List Nat) :
    decode address (opening x? ++ opcode :: rest) = command address x? opcode rest := by
  cases x? with
  | none =>
      show afterFirst address opcode (Index.ofOpcode? opcode) rest = _
      rw [h]
      rfl
  | some x => cases x <;> rfl

/-- An opcode without a prefix of its own is taken apart into quadrant, row and column. -/
theorem command_eq_plain {x? : Option Index} (quadrant : Nat) {row column : Nat} (hr : row < 8)
    (hc : column < 8) (hb : 64 * quadrant + 8 * row + column ≠ 0xCB)
    (he : 64 * quadrant + 8 * row + column ≠ 0xED) :
    command address x? (64 * quadrant + 8 * row + column) =
      plain address x? row column quadrant := by
  have quotient : (64 * quadrant + 8 * row + column) / 64 = quadrant := by omega
  have middle : (64 * quadrant + 8 * row + column) / 8 % 8 = row := by omega
  have remainder : (64 * quadrant + 8 * row + column) % 8 = column := by omega
  rw [command, if_neg hb, if_neg he, quotient, middle, remainder]

theorem place_register {register : Reg8} {bits : Nat} (h : register.code? = some bits)
    (x? : Option Index) (rest : List Nat) :
    place x? bits rest = some (.reg8 register, rest) := by
  cases register <;> cases h <;> rfl

theorem place_indexed (x : Index) (b : Nat) (rest : List Nat) :
    place (some x) 6 (b :: rest) = some (.indexed x (some (.ofNat (word (signed 8 b)))), rest) :=
  rfl

theorem loads_eq {x? : Option Index} {row column : Nat} {target source : Mode}
    (ne : ¬(row = 6 ∧ column = 6)) (ht : place x? row bytes = some (target, middle))
    (hs : place x? column middle = some (source, rest)) :
    loads x? row column bytes = some (⟨.ld, none, [target, source]⟩, rest) := by
  rw [loads, if_neg ne]
  exact (bind_of_eq ht).trans (bind_of_eq hs)

end Reader

theorem Index.ofOpcode?_eq_none {n : Nat} (hx : n ≠ 0xDD) (hy : n ≠ 0xFD) :
    ofOpcode? n = none := by
  unfold ofOpcode?
  split <;> simp_all

/-- A place is a register, or it stands for memory. -/
theorem Place.register_or_memory {mode : Mode} {place : Place} (h : ofMode? mode = some place) :
    (∃ register bits, register.code? = some bits ∧ mode = .reg8 register ∧ place = ⟨[], bits, []⟩) ∨
      place.bits = 6 := by
  unfold ofMode? at h
  split at h
  case h_1 register =>
      obtain ⟨bits, hb, rfl⟩ := Option.map_eq_some_iff.mp h
      exact .inl ⟨register, bits, hb, rfl, rfl⟩
  case h_2 =>
      cases h
      exact .inr rfl
  case h_3 =>
      cases h
      exact .inr rfl
  case h_4 => contradiction

/-- The place reads as a mode behind an index prefix, or behind none: then there is no offset. -/
structure Place.ReadsAs (place : Place) (x? : Option Index) (back : List Nat) (mode : Mode) :
    Prop where
  read : ∀ rest, Reader.place x? place.bits (back ++ rest) = some (mode, rest)
  plain : x? = none → back = []
  memory : x? ≠ none → place.bits = 6

theorem Reader.bitGroup_eq {place : Place} {x? : Option Index} {back : List Nat} {mode : Mode}
    {quadrant row : Nat} (h : place.ReadsAs x? back mode) (hb : place.bits < 8) (hr : row < 8)
    (rest : List Nat) :
    bitGroup x? (back ++ (64 * quadrant + 8 * row + place.bits) :: rest) =
      bitCommand mode row quadrant rest := by
  have quotient : (64 * quadrant + 8 * row + place.bits) / 64 = quadrant := by omega
  have middle : (64 * quadrant + 8 * row + place.bits) / 8 % 8 = row := by omega
  have remainder : (64 * quadrant + 8 * row + place.bits) % 8 = place.bits := by omega
  generalize 64 * quadrant + 8 * row + place.bits = opcode at quotient middle remainder ⊢
  cases x? with
  | none =>
      have hback := h.plain rfl
      subst hback
      have hread := h.read rest
      rw [List.nil_append, ← remainder] at hread
      rw [← quotient, ← middle]
      show (Reader.place none (opcode % 8) >>= fun mode =>
        bitCommand mode (opcode / 8 % 8) (opcode / 64)) rest = _
      exact bind_of_eq hread
  | some x =>
      have hread := h.read (opcode :: rest)
      rw [h.memory (by simp)] at hread
      rw [← quotient, ← middle]
      exact bind_of_eq hread

/-- The fields of a place read back: prefix and offset tell the mode. -/
theorem Place.readsAs {mode : Mode} {place : Place} {front back : List Nat}
    (h : ofMode? mode = some place) (hf : Field.fillAll ctx place.opening = .ok front)
    (hb : Field.fillAll ctx place.offset = .ok back) :
    ∃ x? mode', front = Reader.opening x? ∧ place.ReadsAs x? back mode' ∧
      (ctx.Matches env address → mode'.Alike env.scope mode) := by
  unfold ofMode? at h
  split at h
  case h_1 register =>
      obtain ⟨bits, hr, rfl⟩ := Option.map_eq_some_iff.mp h
      cases hf
      cases hb
      exact ⟨none, .reg8 register, rfl, ⟨Reader.place_register hr none, fun _ => rfl, by simp⟩,
        fun _ => .refl _⟩
  case h_2 =>
      cases h
      cases hf
      cases hb
      exact ⟨none, .indirect .hl, rfl, ⟨fun _ => rfl, fun _ => rfl, fun _ => rfl⟩,
        fun _ => .refl _⟩
  case h_3 x offset =>
      cases h
      cases hf
      obtain ⟨n, hn, hd⟩ := bind_eq_ok.mp (Field.fillAll_singleton.mp hb)
      dsimp only at hd
      split at hd
      case isFalse => cases hd
      case isTrue fits =>
          cases hd
          have lt : n < 65536 := Context.value_lt hn
          refine ⟨some x, .indexed x (some (.ofNat n)), rfl, ⟨fun rest => ?_, nofun, fun _ => rfl⟩,
            fun hm => ?_⟩
          · dsimp only
            rw [List.singleton_append, Reader.place_indexed, signed_byte fits, word_signed lt]
          · exact .indexed (by rw [hm.value hn]; exact Expr.value?_ofNat lt)
  case h_4 => contradiction

/-- The fields of a place around an opcode are filled with prefix, opcode and offset. -/
theorem Place.readsAs_opcode {mode : Mode} {place : Place} {opcode : Nat} {bytes : List Nat}
    (h : ofMode? mode = some place)
    (hb : Field.fillAll ctx (place.opening ++ [.opcode opcode] ++ place.offset) = .ok bytes) :
    ∃ x? back mode', Reader.opening x? ++ opcode :: back = bytes ∧
      place.ReadsAs x? back mode' ∧ (ctx.Matches env address → mode'.Alike env.scope mode) := by
  obtain ⟨_, back, hmain, hback, rfl⟩ := Field.fillAll_append.mp hb
  obtain ⟨front, _, hfront, hop, rfl⟩ := Field.fillAll_append.mp hmain
  cases hop
  obtain ⟨x?, mode', rfl, hread, halike⟩ := Place.readsAs h hfront hback
  exact ⟨x?, back, mode', (List.append_cons _ _ _), hread, halike⟩

namespace Form

variable {c : Command}

/-- Code with one main opcode between the opening and the offset of a place. -/
theorem readsBack_place {mode : Mode} {place : Place} {opcode : Nat} (d : Mode → Command)
    (h : Place.ofMode? mode = some place) (ho : Index.ofOpcode? opcode = none)
    (hd : ∀ {x? bytes mode' rest}, Reader.place x? place.bits bytes = some (mode', rest) →
      Reader.command address x? opcode bytes = some (d mode', rest))
    (hs : ∀ mode' : Mode, mode'.Alike env.scope mode → ∀ m, (d mode').run env m = c.run env m) :
    (place.form opcode).ReadsBack ctx env address c := by
  rintro _ ⟨⟩ bytes hb
  obtain ⟨x?, back, mode', rfl, hread, halike⟩ := Place.readsAs_opcode h hb
  refine ⟨d mode', fun rest => ?_, fun hm => hs mode' (halike hm)⟩
  rw [List.append_assoc]
  exact (Reader.decode_opening x? ho _).trans (hd (hread.read rest))

/-- The same with a byte from an expression behind the offset. -/
theorem readsBack_placeByte {mode : Mode} {place : Place} {opcode : Nat} {e : Expr}
    (d : Mode → Expr → Command) (h : Place.ofMode? mode = some place)
    (ho : Index.ofOpcode? opcode = none)
    (hd : ∀ {x? bytes mode' b rest}, Reader.place x? place.bits bytes = some (mode', b :: rest) →
      Reader.command address x? opcode bytes = some (d mode' (.ofNat b), rest))
    (hs : ∀ (mode' : Mode) f n, mode'.Alike env.scope mode → e.value? env.scope = some n →
      f.value? env.scope = some (lowByte n) → ∀ m, (d mode' f).run env m = c.run env m) :
    (Form.code (place.opening ++ [.opcode opcode] ++ place.offset ++ [.byte e])).ReadsBack
      ctx env address c := by
  rintro _ ⟨⟩ bytes hb
  obtain ⟨_, _, hplace, he, rfl⟩ := Field.fillAll_append.mp hb
  obtain ⟨n, hn, rfl⟩ := map_eq_ok.mp (Field.fillAll_singleton.mp he)
  obtain ⟨x?, back, mode', rfl, hread, halike⟩ := Place.readsAs_opcode h hplace
  refine ⟨d mode' (.ofNat (lowByte n)), fun rest => ?_, fun hm => ?_⟩
  · rw [List.append_assoc, List.append_assoc]
    exact (Reader.decode_opening x? ho _).trans (hd (hread.read _))
  · exact hs mode' _ n (halike hm) (hm.value hn)
      (Expr.value?_ofNat (by have := lowByte_lt n; omega))

/-- Code of the bit group: the offset of the place stands in front of the last opcode. -/
theorem readsBack_bitGroup {mode : Mode} {place : Place} {last : Field}
    (h : Place.ofMode? mode = some place)
    (hl : ∀ b, last.fill ctx = .ok b → ∃ quadrant row, row < 8 ∧
      b = [64 * quadrant + 8 * row + place.bits] ∧ ∃ d : Mode → Command,
        (∀ mode' rest, Reader.bitCommand mode' row quadrant rest = some (d mode', rest)) ∧
        (ctx.Matches env address → ∀ mode' : Mode, mode'.Alike env.scope mode →
          ∀ m, (d mode').run env m = c.run env m)) :
    (Form.code (place.bitGroup last)).ReadsBack ctx env address c := by
  rintro _ ⟨⟩ bytes hb
  obtain ⟨_, b, hplace, hlast, rfl⟩ := Field.fillAll_append.mp hb
  obtain ⟨quadrant, row, hrow, rfl, d, hd, hs⟩ := hl b (Field.fillAll_singleton.mp hlast)
  obtain ⟨x?, back, mode', rfl, hread, halike⟩ := Place.readsAs_opcode h hplace
  refine ⟨d mode', fun rest => ?_, fun hm => hs hm mode' (halike hm)⟩
  rw [List.append_assoc, List.append_assoc]
  exact (Reader.decode_opening x? rfl _).trans
    ((Reader.bitGroup_eq hread (Place.bits_lt h) hrow rest).trans (hd mode' rest))

end Form

end Z80Workbench
