import Z80Workbench.Proofs.Assembly.Binding
import Z80Workbench.Proofs.Assembly.Yield
import Z80Workbench.Proofs.Code.Length
import Z80Workbench.Proofs.Firmware

/-!
# Z80Workbench.Proofs.Assembly.SizeAgreement

Layout and image agree on the size of instructions.  The layout sizes an instruction with the
symbols of the lines before it, without an address and without the second resolver; the image
encodes it with all of them.  In a source that binds every name once, and identifiers only, the
code is as long as the space that was reserved for it.
-/

namespace Z80Workbench

namespace Layout

/-- The space reserved for an instruction is what its operation takes so far. -/
theorem Scan.size_placement (fallback : String → Option Int) (scan : Scan) {line : SourceLine}
    {m : Mnemonic} (h : line.operation = some (.mnemonic m)) :
    (scan.placement fallback line).size =
      (Operation.mnemonic m).size scan.symbols line.args.toList := by
  simp [placement, Placement.ofExtent, Extent.ofLine, h]

variable {fallback resolve : String → Option Int} {lines : List SourceLine}

/-- The code of an instruction is as long as the space reserved for it, at whatever address.  The
resolver for the image need not be that for origins and constants. -/
theorem length_code (once : (ofLines fallback lines).BindsOnce)
    (identifiers : (ofLines fallback lines).BindsIdentifiers)
    (known : Expr.KnowsIdentifiers resolve) {p : Placement}
    (hp : p ∈ (ofLines fallback lines).placements) {m : Mnemonic}
    (hm : p.line.operation = some (.mnemonic m)) {ctx : Context}
    (hc : ctx.scope = ⟨(ofLines fallback lines).symbols, resolve⟩) {bytes : List Nat}
    (he : (Instruction.ofArgs (.mnemonic m) p.line.args.toList).encode ctx = .ok bytes) :
    bytes.length = p.size := by
  obtain ⟨before, line, after, hl, hq⟩ := exists_of_mem_placements hp
  rw [hq, Scan.line_placement] at hm he
  have larger : ctx.scope.Extends
      { symbols := (before.foldl (Scan.next fallback) Scan.start).symbols } := by
    intro name value hv
    rw [Expr.Scope.value?, Option.or_none] at hv
    rw [hc, Expr.Scope.value?, symbols_extend once hl hv]
    rfl
  have known' : Expr.KnowsIdentifiers ctx.scope.value? := by
    rw [hc]
    exact knowsIdentifiers identifiers known
  have early := Instruction.size?_of_encode larger known' (Instruction.isRead_form _ _) he
  rw [hq, Scan.size_placement fallback _ hm, Operation.size, early]
  rfl

/-- In a source that binds every name once, and identifiers only, every instruction that can be
encoded fills the space reserved for it, and no warning tells of another size. -/
theorem code_fills_reserve (file : String) (once : (ofLines fallback lines).BindsOnce)
    (identifiers : (ofLines fallback lines).BindsIdentifiers)
    (known : Expr.KnowsIdentifiers resolve) :
    (∀ p ∈ (ofLines fallback lines).placements, ∀ m address bytes,
      p.line.operation = some (.mnemonic m) → p.address = some address →
      (Instruction.ofArgs (.mnemonic m) p.line.args.toList).encode
        { scope := ⟨(ofLines fallback lines).symbols, resolve⟩, address := some address } =
          .ok bytes →
      bytes.length = p.size) ∧
    ∀ line length reserved, Image.sizeWarning line length reserved ∉
      (Image.ofLayout resolve file (ofLines fallback lines)).diagnostics.warnings := by
  refine ⟨fun p hp m address bytes hm _ he => length_code once identifiers known hp hm rfl he, ?_⟩
  intro line length reserved hw
  simp only [Image.ofLayout, List.flatMap_map, List.mem_flatMap] at hw
  obtain ⟨p, hp, hw⟩ := hw
  obtain ⟨m, address, bytes, hm, _, he, hne⟩ := Image.sizeWarning_mem_ofPlacement hw
  exact hne (length_code once identifiers known hp hm rfl he)

/-- Three lines, with a name that is used before its line and one that only the firmware knows. -/
def forwardLines : List SourceLine :=
  [⟨1, "START: LD A,(LATER+1)", ["START"], some (.mnemonic .ld), "A,(LATER+1)"⟩,
   ⟨2, "  JP CHPUT", [], some (.mnemonic .jp), "CHPUT"⟩,
   ⟨3, "LATER: DB 1", ["LATER"], some (.directive .db), "1"⟩]

theorem code_fills_reserve_forward :
    let layout := ofLines Firmware.address? forwardLines
    let image := Image.ofLayout Firmware.address? "" layout
    image.lineBytes = [(1, [0x3A, 7, 0]), (2, [0xC3, 0xA2, 0]), (3, [1])] ∧
      layout.placements.map (·.size) = [3, 3, 1] ∧
      ∀ line length reserved,
        Image.sizeWarning line length reserved ∉ image.diagnostics.warnings := by
  have once : (ofLines Firmware.address? forwardLines).BindsOnce := by decide +kernel
  have identifiers : (ofLines Firmware.address? forwardLines).BindsIdentifiers := by
    decide +kernel
  refine ⟨by decide +kernel, by decide +kernel, ?_⟩
  exact (code_fills_reserve "" once identifiers Firmware.knowsIdentifiers).2

end Layout

end Z80Workbench
