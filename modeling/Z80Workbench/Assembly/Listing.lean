import Z80Workbench.Assembly.Analysis
import Z80Workbench.Text.Json

/-!
# Z80Workbench.Assembly.Listing

The written results of an analysis: the listing, the symbol file and the summary document.
-/

namespace Z80Workbench.Analysis

open Text

/-- Symbols in the order of their names. -/
def sortedEntries {ν : Type} (table : Table String ν) : List (String × ν) :=
  table.entries.mergeSort fun a b => !decide (b.1 < a.1)

/-- A line of the symbol file. -/
def symbolRow (constants : List String) (name : String) (value : Int) : String :=
  padEnd 20 name ++ " $" ++ hexPadded 4 value ++ if constants.contains name then "  EQU" else ""

/-- The lines of the symbol file. -/
def symbolRows (a : Analysis) : List String :=
  let constants := a.constants.map (·.name)
  (sortedEntries a.symbols).map fun (name, value) => symbolRow constants name value

/-- The symbol file: a line for each symbol, by name. -/
def symbolFile (a : Analysis) : String :=
  joinLines a.symbolRows ++ if a.symbolRows.isEmpty then "" else "\n"

/-- At most four bytes, and a sign that there are more. -/
def codeColumn (bytes : List Nat) : String :=
  " ".intercalate ((bytes.take 4).map fun (b : Nat) => hexPadded 2 b) ++
    if 4 < bytes.length then "+" else ""

/-- A row of the listing. -/
def listingRow (number : Nat) (address : Option Nat) (bytes : List Nat) (text : String) : String :=
  let addressColumn :=
    match address with
    | some n => hexPadded 4 n
    | none => "    "
  alignRight 4 number ++ "  " ++ addressColumn ++ "  " ++ padEnd 12 (codeColumn bytes) ++ "  " ++
    String.ofList (trimEnd text.toList)

/-- A rule across a page. -/
def rule (c : Char) (width : Nat) : String := String.ofList (List.replicate width c)

/-- The rows of the listing, one for each line. Constants show no address. -/
def listingRows (a : Analysis) : List String :=
  let placed := a.layout.placements.filter fun p => !p.isEqu
  let addresses : Std.ExtTreeMap Nat Nat :=
    .ofList (placed.filterMap fun p => p.address.map (p.line.number, ·))
  let code : Std.ExtTreeMap Nat (List Nat) := .ofList a.image.lineBytes
  (a.lines.zipIdx 1).map fun (text, number) =>
    listingRow number addresses[number]? (code[number]?.getD []) text

/-- The listing: a row for each line, and the symbols. -/
def listing (a : Analysis) : String :=
  joinLines <|
    ["MSX Assembler Listing", rule '=' 72, "", "Line  Addr  Code          Source", rule '-' 72] ++
      a.listingRows ++ ["", "Symbol Table", rule '-' 30] ++ linesOf a.symbolFile

/-! ## The summary document -/

/-- A step in the summary. -/
def stepJson (s : Step) : Json :=
  .object
    [("id", .number s.id), ("line", .number s.line), ("mnemonic", .string s.word),
     ("operands", .string s.operands), ("kind", .string s.kind.name),
     ("description", .string s.description), ("cycles", .number s.cycles)]

/-- A constant in the summary. -/
def constantJson (c : Constant) : Json :=
  .object
    [("name", .string c.name), ("value", .number c.value), ("hex", .string (dollarHex c.value))]

/-- A variable in the summary. -/
def variableJson (v : Variable) : Json :=
  .object
    [("name", .string v.name), ("value", .number v.value),
     ("address", .string (dollarHex v.address))]

/-- The summary document of an analysis. -/
def summary (a : Analysis) : Json :=
  .object
    [("entry_line", .number a.entryLine),
     ("rom_header_detected", .bool a.holdsCartridgeHeader),
     ("steps", .array (a.steps.map stepJson)),
     ("symbols", .object ((sortedEntries a.symbols).map fun (name, n) => (name, .number n))),
     ("labels", .object ((sortedEntries a.labels).map fun (name, n) => (name, .number n))),
     ("constants", .array (a.constants.map constantJson)),
     ("initial_variables", .array (a.image.namedData.map variableJson)),
     ("memory_image",
      .object (a.memory.toList.map fun (address, b) => (hexPadded 4 address, .number b))),
     ("bugs", .array (a.findings.map fun f => .string f.text)),
     ("diagnostics", .array (a.diagnostics.messages.map .string))]

end Z80Workbench.Analysis
