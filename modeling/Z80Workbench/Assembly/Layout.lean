import Z80Workbench.Code.Size

/-!
# Z80Workbench.Assembly.Layout

The layout of a source: the address and size of every line, and the symbols.

An address counter runs through the lines. `ORG` sets it, `EQU` binds its labels to a value, and
any other line binds its labels to the counter and moves it on by the size of the line. A line
is laid out with the symbols of the lines before it, so later names count as zero in its size.
-/

namespace Z80Workbench

/-- Labels with the number of the line that declares each, in order of first declaration. -/
abbrev Labels := Table String Nat

/-- Where a line lies: the address of its labels, its size, the address of the next line, and
the value that an `EQU` gives to its labels. -/
structure Extent where
  address : Int
  size : Nat
  next : Int
  value : Option Nat
  deriving Repr, DecidableEq

/-- The extent of a line at an address. An origin without a value changes nothing. -/
def Extent.ofLine (scope : Expr.Scope) (address : Int) (line : SourceLine) : Extent :=
  match line.operation with
  | some (.directive .org) =>
    let origin := ((Expr.ofString line.args).value? scope).elim address Int.ofNat
    ⟨origin, 0, origin, none⟩
  | some (.directive .equ) => ⟨address, 0, address, (Expr.ofString line.args).value? scope⟩
  | some operation =>
    let size := operation.size scope.symbols line.args.toList
    ⟨address, size, (address + size) % 65536, none⟩
  | none => ⟨address, 0, address % 65536, none⟩

/-- A line with its place: its address, or the value of an `EQU` that has one, and its size. -/
structure Placement where
  line : SourceLine
  address : Option Nat
  size : Nat
  deriving Repr, DecidableEq

namespace Placement

/-- The placement of a line with an extent. -/
def ofExtent (line : SourceLine) (extent : Extent) : Placement :=
  if line.operation = some (.directive .equ) then ⟨line, extent.value, 0⟩
  else ⟨line, some (word extent.address), extent.size⟩

/-- Whether the line defines constants. -/
def isEqu (p : Placement) : Bool := p.line.operation = some (.directive .equ)

end Placement

/-- A named value from an `EQU` line. -/
structure Constant where
  name : String
  value : Nat
  deriving Repr, DecidableEq

/-- The layout of a source: its symbols, its labels and the placements of its lines. -/
structure Layout where
  symbols : Symbols
  labels : Labels
  placements : List Placement

namespace Layout

/-- A layout in progress: symbols and labels so far, the address counter, and the placements,
latest first. -/
structure Scan where
  symbols : Symbols
  labels : Labels
  counter : Int
  placed : List Placement

namespace Scan

/-- Nothing laid out; the counter is at zero. -/
def start : Scan := ⟨∅, ∅, 0, []⟩

/-- Binds the labels of a line: to a value for `EQU`, if it has one, or to an address. -/
def bind (scan : Scan) (line : SourceLine) (extent : Extent) : Scan :=
  if line.operation = some (.directive .equ) then
    match extent.value with
    | none => scan
    | some value =>
      { scan with
        symbols := line.labels.foldl (fun table label => table.insert label value) scan.symbols }
  else
    { scan with
      symbols :=
        line.labels.foldl (fun table label => table.insert label extent.address) scan.symbols
      labels := line.labels.foldl (fun table label => table.insert label line.number) scan.labels }

/-- Lays out the next line. -/
def next (fallback : String → Option Int) (scan : Scan) (line : SourceLine) : Scan :=
  let extent := Extent.ofLine ⟨scan.symbols, fallback⟩ scan.counter line
  { scan.bind line extent with
    counter := extent.next
    placed := Placement.ofExtent line extent :: scan.placed }

end Scan

/-- Lays out lines, with a second resolver for the names in origins and constants. -/
def ofLines (fallback : String → Option Int) (lines : List SourceLine) : Layout :=
  let scan := lines.foldl (Scan.next fallback) Scan.start
  ⟨scan.symbols, scan.labels, scan.placed.reverse⟩

/-- The constants in order of definition. -/
def constants (layout : Layout) : List Constant :=
  layout.placements.flatMap fun p =>
    match p.isEqu, p.address with
    | true, some value => p.line.labels.map fun name => ⟨name, value⟩
    | _, _ => []

/-- Whether a name is a constant. -/
def isConstant (layout : Layout) (name : String) : Bool :=
  layout.constants.any (·.name == name)

/-- Line numbers with addresses, in line order. -/
def addresses (layout : Layout) : List (Nat × Nat) :=
  layout.placements.filterMap fun p => p.address.map (p.line.number, ·)

/-- Line numbers with sizes, in line order. -/
def sizes (layout : Layout) : List (Nat × Nat) :=
  layout.placements.map fun p => (p.line.number, p.size)

end Layout

end Z80Workbench
