import Z80Workbench.Assembly.Analysis
import Z80Workbench.Code.LookUp

/-!
# Z80Workbench.Assembly.Run

The analysis as it runs, stage by stage, with every fault that ends it. Where nothing is looked up
in vain, its result is that of `Analysis.ofSource`.
-/

namespace Z80Workbench

open Text Source

/-! ## Layout -/

/-- The bytes that an operation takes. -/
def Operation.checkedSize (symbols : Symbols) (args : List Char) :
    Operation → Except Fault Nat
  | .mnemonic m => do
    let size? ← (Instruction.ofArgs (.mnemonic m) args).checkedSize? symbols
    return size?.getD (m.estimate args)
  | .directive d =>
    if d.reservesSpace then do
      let operand ← Fault.noOperand.first (splitData args)
      return ((Expr.read operand).value? { symbols }).getD 0
    else return d.size symbols args
  | .unknown _ => return 0

/-- The extent of a line at an address. -/
def Extent.checkedLine (scope : Expr.Scope) (address : Int) (line : SourceLine) :
    Except Fault Extent := do
  match line.operation with
  | some (.directive .org) | some (.directive .equ) | none => return ofLine scope address line
  | some operation =>
    let size ← operation.checkedSize scope.symbols line.args.toList
    return ⟨address, size, (address + size) % 65536, none⟩

namespace Layout

/-- A layout in progress with a line at the given extent. -/
def Scan.place (scan : Scan) (line : SourceLine) (extent : Extent) : Scan :=
  { scan.bind line extent with
    counter := extent.next
    placed := Placement.ofExtent line extent :: scan.placed }

/-- Lays out the next line. -/
def Scan.checkedNext (fallback : String → Option Int) (scan : Scan) (line : SourceLine) :
    Except Fault Scan := do
  return scan.place line (← Extent.checkedLine ⟨scan.symbols, fallback⟩ scan.counter line)

/-- Lays out lines. -/
def checkedLines (fallback : String → Option Int) (lines : List SourceLine) :
    Except Fault Layout := do
  let scan ← lines.foldlM (Scan.checkedNext fallback) Scan.start
  return ⟨scan.symbols, scan.labels, scan.placed.reverse⟩

end Layout

/-! ## Image -/

namespace Image

/-- What an instruction yields: its code, or the error that there is none. -/
def ofCode (setting : Setting) (line : SourceLine) (size : Nat) :
    Except Cause (List Nat) → LineYield
  | .ok bytes =>
    ⟨some ⟨.code, bytes.map some⟩, [],
      if bytes.length = size then [] else [sizeWarning line bytes.length size]⟩
  | .error cause =>
    ⟨none,
      [{ cause
         location := some ⟨setting.file, line.number, 0⟩
         sourceLine := some (trimString line.text) }], []⟩

/-- What a placed line yields. -/
def checkedPlacement (setting : Setting) (p : Placement) : Except Fault LineYield := do
  match p.line.operation, p.address with
  | some (.mnemonic m), some address =>
    let i := Instruction.ofArgs (.mnemonic m) p.line.args.toList
    let code ← i.checkedEncode { scope := setting.scope, address := some address }
    return ofCode setting p.line p.size code
  | _, _ => return ofPlacement setting p

/-- The variable of a label that points into data: its value is looked up in the image. -/
def checkedAlias? (layout : Layout) (scan : Scan) (known : List String) (label : String) :
    Except Fault (Option Variable) :=
  if known.contains label || layout.isConstant label then .ok none
  else
    match layout.symbols.get? label with
    | some (.ofNat address) =>
      if scan.data.contains address then
        match scan.memory.get? address with
        | some value => .ok (some ⟨label, value, address⟩)
        | none => .error (.noCell address)
      else .ok none
    | _ => .ok none

/-- The image of placed lines with what they yield. -/
def checkedYields (layout : Layout) (yields : List (Placement × LineYield)) :
    Except Fault Image := do
  let scan := yields.foldl Scan.next ⟨∅, ∅, []⟩
  let namedData := scan.namedData.reverse
  let aliases ← layout.labels.keys.mapM (checkedAlias? layout scan (namedData.map (·.name)))
  return {
    memory := scan.memory
    namedData := namedData ++ aliases.filterMap id
    lineBytes := yields.filterMap fun (p, y) => y.emission.map fun e => (p.line.number, e.bytes)
    diagnostics := ⟨yields.flatMap (·.2.errors), yields.flatMap (·.2.warnings)⟩ }

/-- Assembles a laid-out source. -/
def checkedLayout (fallback : String → Option Int) (file : String) (layout : Layout) :
    Except Fault Image := do
  let setting : Setting := ⟨⟨layout.symbols, fallback⟩, file⟩
  let yields ← layout.placements.mapM fun p => do return (p, ← checkedPlacement setting p)
  checkedYields layout yields

end Image

/-! ## The whole run -/

/-- Runs the analysis of a source text; `file` is its name in diagnostics. -/
def Analysis.run (settings : Settings) (source file : String) : Except Fault Analysis := do
  let expansion := Repeat.expand settings source
  let lines ← checkedParse expansion.text
  let layout ← Layout.checkedLines Firmware.address? lines
  let image ← Image.checkedLayout Firmware.address? file layout
  return {
    expansion
    layout
    image
    findings := Aliasing.ofLayout layout
    steps := Step.ofLines ⟨layout.symbols, Firmware.address?⟩ lines }

end Z80Workbench
