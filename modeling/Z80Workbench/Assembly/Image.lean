import Std.Data.ExtTreeSet
import Z80Workbench.Assembly.Layout
import Z80Workbench.Diagnostic
import Z80Workbench.Memory

/-!
# Z80Workbench.Assembly.Image

The memory image of a laid-out source.

Every line is turned into bytes on its own, with all symbols known; then the bytes are stored
line by line. A value that cannot be resolved leaves a gap in a row of bytes and is zero in a
row of words. Space is filled only where a fill value is given. The first byte or word behind
every label on or into data is kept as the initial value of a variable.
-/

namespace Z80Workbench

open Text Source

/-- The initial value of a named data location. -/
structure Variable where
  name : String
  value : Nat
  address : Nat
  deriving Repr, DecidableEq

/-- What kind of line bytes come from: bytes and words are data that variables may name. -/
inductive Content where
  | bytes | words | fill | code
  deriving Repr, DecidableEq

/-- The bytes of a line; a gap has none. -/
structure Emission where
  content : Content
  slots : List (Option Nat)
  deriving Repr, DecidableEq

namespace Emission

/-- The bytes of a line without its gaps. -/
def bytes (e : Emission) : List Nat := e.slots.filterMap id

/-- Whether variables may name the bytes. -/
def isData (e : Emission) : Bool := e.content = .bytes || e.content = .words

end Emission

/-- What a line yields: its bytes, if it has any to store, and diagnostics. -/
structure LineYield where
  emission : Option Emission
  errors : List Diagnostic
  warnings : List String

namespace LineYield

/-- Nothing at all. -/
def nothing : LineYield := ⟨none, [], []⟩

end LineYield

namespace Image

/-- What the lines of an image are assembled with. -/
structure Setting where
  scope : Expr.Scope
  file : String

/-- The error of a value that cannot be resolved. -/
def unresolvedValue (setting : Setting) (line : SourceLine) (token : List Char) : Diagnostic where
  cause := .undefinedSymbol (String.ofList token) []
  location := some ⟨setting.file, line.number, 0⟩
  sourceLine := some (trimString line.text)

/-- The bytes of one operand of a byte directive. -/
def byteItem (scope : Expr.Scope) (token : List Char) : List (Option Nat) :=
  match quotedText? token with
  | some cs => cs.map fun c => some (lowByte c.toNat)
  | none => [((Expr.read token).value? scope).map lowByte]

/-- Whether an operand of a byte directive has no value. -/
def lacksValue (scope : Expr.Scope) (token : List Char) : Bool :=
  (quotedText? token).isNone && ((Expr.read token).value? scope).isNone

/-- What a byte directive yields. -/
def ofBytes (setting : Setting) (line : SourceLine) : LineYield :=
  let tokens := splitData line.args.toList
  ⟨some ⟨.bytes, tokens.flatMap (byteItem setting.scope)⟩,
    (tokens.filter (lacksValue setting.scope)).map (unresolvedValue setting line), []⟩

/-- What a word directive yields. -/
def ofWords (setting : Setting) (line : SourceLine) : LineYield :=
  let tokens := splitData line.args.toList
  let value? (token : List Char) := (Expr.read token).value? setting.scope
  ⟨some ⟨.words, tokens.flatMap fun token => (wordBytes ((value? token).getD 0)).map some⟩,
    (tokens.filter fun token => (value? token).isNone).map (unresolvedValue setting line), []⟩

/-- What a directive for space yields. -/
def ofSpace (setting : Setting) (line : SourceLine) (size : Nat) : LineYield :=
  match splitData line.args.toList with
  | _ :: fill :: _ =>
    match (Expr.read fill).value? setting.scope with
    | some value => ⟨some ⟨.fill, List.replicate size (some (lowByte value))⟩, [], []⟩
    | none => ⟨none, [unresolvedValue setting line fill], []⟩
  | _ => .nothing

/-- The warning about a line whose code is not as long as the space kept for it. -/
def sizeWarning (line : SourceLine) (length reserved : Nat) : String :=
  let number := line.number
  let word := line.word
  let args := line.args
  s!"line {number}: '{word} {args}' encodes to {length} bytes but {reserved} were reserved"

/-- What an instruction at an address yields. -/
def ofInstruction (setting : Setting) (line : SourceLine) (operation : Operation)
    (address size : Nat) : LineYield :=
  let instruction := Instruction.ofArgs operation line.args.toList
  match instruction.encode { scope := setting.scope, address := some address } with
  | .ok bytes =>
    ⟨some ⟨.code, bytes.map some⟩, [],
      if bytes.length = size then [] else [sizeWarning line bytes.length size]⟩
  | .error cause =>
    ⟨none,
      [{ cause
         location := some ⟨setting.file, line.number, 0⟩
         sourceLine := some (trimString line.text) }], []⟩

/-- The warning about a word that is no part of the language. -/
def unknownWarning (line : SourceLine) (word : String) : String :=
  let number := line.number
  s!"line {number}: unknown instruction or macro '{word}'"

/-- What a placed line yields. -/
def ofPlacement (setting : Setting) (p : Placement) : LineYield :=
  match p.line.operation, p.address with
  | some (.directive d), some _ =>
    if d.storesBytes then ofBytes setting p.line
    else if d.storesWords then ofWords setting p.line
    else if d.reservesSpace then ofSpace setting p.line p.size
    else .nothing
  | some (.mnemonic m), some address => ofInstruction setting p.line (.mnemonic m) address p.size
  | some (.unknown word), some _ => ⟨none, [], [unknownWarning p.line word]⟩
  | _, _ => .nothing

/-! ## Storing -/

/-- An image in progress: the bytes, the addresses of data, and the variables, latest first. -/
structure Scan where
  memory : Memory
  data : Std.ExtTreeSet Nat
  namedData : List Variable

namespace Scan

/-- The addresses that slots fill from an address on. -/
def filled (address : Nat) : List (Option Nat) → List Nat
  | [] => []
  | none :: rest => filled (address + 1) rest
  | some _ :: rest => address % 65536 :: filled (address + 1) rest

/-- The initial value at an address: a word in a row of words and a byte in a row of bytes. -/
def initialValue (memory : Memory) (content : Content) (address : Nat) : Nat :=
  if content = .words then memory.word address 0 else (memory.get? address).getD 0

/-- Stores the bytes of a line. -/
def store (scan : Scan) (line : SourceLine) (address : Nat) (e : Emission) : Scan :=
  let memory := scan.memory.writeSlots address e.slots
  if e.isData then
    let value := initialValue memory e.content address
    { memory
      data := (filled address e.slots).foldl (·.insert ·) scan.data
      namedData := (line.labels.map (⟨·, value, address⟩)).reverse ++ scan.namedData }
  else { scan with memory }

/-- Stores what a placed line yields. -/
def next (scan : Scan) (placed : Placement × LineYield) : Scan :=
  match placed.1.address, placed.2.emission with
  | some address, some e => scan.store placed.1.line address e
  | _, _ => scan

end Scan

/-- The variable of a label that points into data, unless the label is a constant or stands on
a data line itself. -/
def aliasOf? (layout : Layout) (scan : Scan) (known : List String) (label : String) :
    Option Variable :=
  if known.contains label || layout.isConstant label then none
  else
    match layout.symbols.get? label with
    | some (.ofNat address) =>
      if scan.data.contains address then
        some ⟨label, (scan.memory.get? address).getD 0, address⟩
      else none
    | _ => none

end Image

/-- The image of a source: its bytes, the initial values of its variables, the bytes of each
line that has some to store, and diagnostics. -/
structure Image where
  memory : Memory
  namedData : List Variable
  lineBytes : List (Nat × List Nat)
  diagnostics : Diagnostics

namespace Image

/-- Assembles a laid-out source. -/
def ofLayout (fallback : String → Option Int) (file : String) (layout : Layout) : Image :=
  let setting : Setting := ⟨⟨layout.symbols, fallback⟩, file⟩
  let yields := layout.placements.map fun p => (p, ofPlacement setting p)
  let scan := yields.foldl Scan.next ⟨∅, ∅, []⟩
  let namedData := scan.namedData.reverse
  let known := namedData.map (·.name)
  { memory := scan.memory
    namedData := namedData ++ layout.labels.keys.filterMap (aliasOf? layout scan known)
    lineBytes := yields.filterMap fun (p, y) => y.emission.map fun e => (p.line.number, e.bytes)
    diagnostics := ⟨yields.flatMap (·.2.errors), yields.flatMap (·.2.warnings)⟩ }

end Image

end Z80Workbench
