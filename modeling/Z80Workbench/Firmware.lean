import Z80Workbench.Text.Blank
import Z80Workbench.Text.Upper
import Z80Workbench.Word

/-!
# Z80Workbench.Firmware

Names and addresses of the firmware of an MSX computer: routines of its ROM, system variables
and hooks. Source may use the names without defining them, and the step list tells what a call
into the firmware does.
-/

namespace Z80Workbench.Firmware

open Text

/-- What a firmware address is for. -/
inductive Kind where
  | routine | systemVariable | hook
  deriving Repr, DecidableEq

/-- A named firmware address. -/
structure Entry where
  name : String
  address : Nat
  description : String
  kind : Kind := .routine
  inputs : String := ""
  outputs : String := ""
  deriving Repr, DecidableEq

/-- An entry in one line. -/
def Entry.summary (e : Entry) : String :=
  e.name ++ ": " ++ e.description ++ (if e.inputs = "" then "" else " (" ++ e.inputs ++ ")")

/-! ## Routines with an effect on video memory -/

/-- The routine that writes a byte. -/
def writeByte : Nat := 0x004D

/-- The routine that fills a block. -/
def fillBlock : Nat := 0x0056

/-- The routine that copies a block from main memory. -/
def copyBlock : Nat := 0x005C

/-- The routines with an effect on video memory. -/
def videoRoutines : List Nat := [writeByte, fillBlock, copyBlock]

/-! ## Entries -/

/-- Entries at restart vectors. -/
def resetEntries : List Entry := [
  { name := "CHKRAM", address := 0x0000
    description := "System reset / cold start" },
  { name := "KEYINT", address := 0x0038
    description := "Timer interrupt handler, updates JIFFY and scans keyboard" }]

/-- Routines for memory slots. -/
def slotEntries : List Entry := [
  { name := "RDSLT", address := 0x000C
    description := "Read RAM in any slot"
    inputs := "A=slot, HL=address", outputs := "A=data" },
  { name := "WRSLT", address := 0x0014
    description := "Write to RAM in any slot"
    inputs := "A=slot, HL=address, E=data" },
  { name := "CALSLT", address := 0x001C
    description := "Call routine in another slot"
    inputs := "IY=slot, IX=address" },
  { name := "ENASLT", address := 0x0024
    description := "Enable slot permanently"
    inputs := "A=slot, H=page" },
  { name := "CALLF", address := 0x0030
    description := "Call routine in another slot (inline parameters)" }]

/-- Routines for the video chip and the screen. -/
def videoEntries : List Entry := [
  { name := "WRTVDP", address := 0x0047
    description := "Write to VDP register"
    inputs := "C=register, B=data" },
  { name := "RDVRM", address := 0x004A
    description := "Read byte from VRAM"
    inputs := "HL=VRAM address", outputs := "A=data" },
  { name := "WRTVRM", address := writeByte
    description := "Write byte to VRAM"
    inputs := "HL=VRAM address, A=data" },
  { name := "SETRD", address := 0x0050
    description := "Set VDP address for reading"
    inputs := "HL=VRAM address" },
  { name := "SETWRT", address := 0x0053
    description := "Set VDP address for writing"
    inputs := "HL=VRAM address" },
  { name := "FILVRM", address := fillBlock
    description := "Fill VRAM block"
    inputs := "HL=VRAM address, BC=length, A=data" },
  { name := "LDIRMV", address := 0x0059
    description := "Block transfer VRAM to RAM"
    inputs := "HL=VRAM source, DE=RAM destination, BC=length" },
  { name := "LDIRVM", address := copyBlock
    description := "Block transfer RAM to VRAM"
    inputs := "HL=RAM source, DE=VRAM destination, BC=length" },
  { name := "CHGMOD", address := 0x005F
    description := "Switch screen mode"
    inputs := "A=screen mode (0-3)" },
  { name := "CHGCLR", address := 0x0062
    description := "Change screen colors"
    inputs := "FORCLR, BAKCLR, BDRCLR" },
  { name := "CLRSPR", address := 0x0069
    description := "Initialize all sprites" },
  { name := "INITXT", address := 0x006C
    description := "Initialize SCREEN 0 (40x24 text)" },
  { name := "INIT32", address := 0x006F
    description := "Initialize SCREEN 1 (32x24 text)" },
  { name := "INIGRP", address := 0x0072
    description := "Initialize SCREEN 2 (graphics)" },
  { name := "INIMLT", address := 0x0075
    description := "Initialize SCREEN 3 (multicolor)" },
  { name := "DISSCR", address := 0x0041
    description := "Disable screen display" },
  { name := "ENASCR", address := 0x0044
    description := "Enable screen display" },
  { name := "CALPAT", address := 0x0084
    description := "Get sprite pattern table address"
    inputs := "A=sprite", outputs := "HL=address" },
  { name := "CALATR", address := 0x0087
    description := "Get sprite attribute table address"
    inputs := "A=sprite", outputs := "HL=address" },
  { name := "GSPSIZ", address := 0x008A
    description := "Get sprite size"
    outputs := "A=size" }]

/-- Routines for sound. -/
def soundEntries : List Entry := [
  { name := "GICINI", address := 0x0090
    description := "Initialize PSG" },
  { name := "WRTPSG", address := 0x0093
    description := "Write to PSG register"
    inputs := "A=register, E=data" },
  { name := "RDPSG", address := 0x0096
    description := "Read PSG register"
    inputs := "A=register", outputs := "A=data" },
  { name := "BEEP", address := 0x00C0
    description := "Generate beep" }]

/-- Routines for the console and input devices. -/
def consoleEntries : List Entry := [
  { name := "CHSNS", address := 0x009C
    description := "Test keyboard buffer status"
    outputs := "Z=buffer empty" },
  { name := "CHGET", address := 0x009F
    description := "Wait for a character from the keyboard"
    outputs := "A=character" },
  { name := "CHPUT", address := 0x00A2
    description := "Output character to the screen"
    inputs := "A=character" },
  { name := "LPTOUT", address := 0x00A5
    description := "Output character to the printer"
    inputs := "A=character" },
  { name := "CLS", address := 0x00C3
    description := "Clear screen" },
  { name := "POSIT", address := 0x00C6
    description := "Move cursor"
    inputs := "H=column, L=row" },
  { name := "TOTEXT", address := 0x00D2
    description := "Return to text mode" },
  { name := "GTSTCK", address := 0x00D5
    description := "Get joystick direction"
    inputs := "A=port", outputs := "A=direction (0-8)" },
  { name := "GTTRIG", address := 0x00D8
    description := "Get trigger status"
    inputs := "A=trigger", outputs := "A=0 released, $FF pressed" },
  { name := "GTPAD", address := 0x00DB
    description := "Get touch pad / mouse data"
    inputs := "A=function", outputs := "A=value" },
  { name := "SNSMAT", address := 0x0141
    description := "Read keyboard matrix row"
    inputs := "A=row", outputs := "A=bits" },
  { name := "KILBUF", address := 0x0156
    description := "Clear keyboard buffer" },
  { name := "RND", address := 0x013E
    description := "Random number (MSX-BASIC helper)"
    outputs := "BC=value" }]

/-- System variables. -/
def variableEntries : List Entry := [
  { name := "LINL40", address := 0xF3AE, kind := .systemVariable
    description := "SCREEN 0 width" },
  { name := "LINL32", address := 0xF3AF, kind := .systemVariable
    description := "SCREEN 1 width" },
  { name := "LINLEN", address := 0xF3B0, kind := .systemVariable
    description := "Current line length" },
  { name := "CRTCNT", address := 0xF3B1, kind := .systemVariable
    description := "Rows on screen" },
  { name := "CLIKSW", address := 0xF3DB, kind := .systemVariable
    description := "Key click switch (0=off)" },
  { name := "CSRY", address := 0xF3DC, kind := .systemVariable
    description := "Cursor row" },
  { name := "CSRX", address := 0xF3DD, kind := .systemVariable
    description := "Cursor column" },
  { name := "FORCLR", address := 0xF3E9, kind := .systemVariable
    description := "Foreground color" },
  { name := "BAKCLR", address := 0xF3EA, kind := .systemVariable
    description := "Background color" },
  { name := "BDRCLR", address := 0xF3EB, kind := .systemVariable
    description := "Border color" },
  { name := "RG0SAV", address := 0xF3DF, kind := .systemVariable
    description := "Copy of VDP register 0" },
  { name := "RG1SAV", address := 0xF3E0, kind := .systemVariable
    description := "Copy of VDP register 1" },
  { name := "STATFL", address := 0xF3E7, kind := .systemVariable
    description := "Copy of VDP status register" },
  { name := "JIFFY", address := 0xFC9E, kind := .systemVariable
    description := "Software clock, incremented every interrupt" },
  { name := "INTCNT", address := 0xFCA2, kind := .systemVariable
    description := "Interrupt counter for ON INTERVAL" },
  { name := "EXPTBL", address := 0xFCC1, kind := .systemVariable
    description := "Slot expansion table" },
  { name := "SLTTBL", address := 0xFCC5, kind := .systemVariable
    description := "Secondary slot register copies" }]

/-- Hooks that programs may patch. -/
def hookEntries : List Entry := [
  { name := "H_KEYI", address := 0xFD9A, kind := .hook
    description := "Hook: interrupt handler" },
  { name := "H_TIMI", address := 0xFD9F, kind := .hook
    description := "Hook: timer interrupt" }]

/-- All entries. -/
def entries : List Entry :=
  resetEntries ++ slotEntries ++ videoEntries ++ soundEntries ++ consoleEntries ++
    variableEntries ++ hookEntries

/-! ## Looking up -/

/-- The spelling of a name in the entries: capital letters, and an underscore for a dot. -/
def canonicalName (name : String) : String :=
  String.ofList ((upper (trim name.toList)).map fun c => if c = '.' then '_' else c)

/-- The entry of a name. -/
def named? (name : String) : Option Entry :=
  let canonical := canonicalName name
  entries.find? (·.name == canonical)

/-- The first entry at an address, which is wrapped to a word. -/
def entryAt? (address : Int) : Option Entry :=
  entries.find? (·.address == word address)

/-- The address of a name. -/
def address? (name : String) : Option Int :=
  (named? name).map fun e => (e.address : Int)

/-- What is at an address, in one line. -/
def summaryAt? (address : Int) : Option String :=
  (entryAt? address).map Entry.summary

/-- All names in order. -/
def names : List String :=
  (entries.map (·.name)).mergeSort

end Z80Workbench.Firmware
