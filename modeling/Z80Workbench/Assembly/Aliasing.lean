import Z80Workbench.Assembly.Layout

/-!
# Z80Workbench.Assembly.Aliasing

Labels of different lines at one address. Nothing lies between them, which may be meant, but is
often a data label without its data or a routine without its body.
-/

namespace Z80Workbench

open Text

/-- The likely mistake behind an alias. -/
inductive AliasKind where
  | emptyData | fallthrough
  deriving Repr, DecidableEq

/-- A label with nothing between it and the next label. -/
structure AliasFinding where
  kind : AliasKind
  name : String
  nextName : String
  line : Int
  address : Int
  deriving Repr, DecidableEq

namespace AliasFinding

/-- A finding in words. -/
def text (f : AliasFinding) : String :=
  let name := f.name
  let nextName := f.nextName
  let line := f.line
  match f.kind with
  | .emptyData =>
    s!"EMPTY DATA: '{name}' has 0 bytes (Line {line}). " ++
      s!"It aliases '{nextName}'. Missing DB/DW?"
  | .fallthrough =>
    s!"FALLTHROUGH: '{name}' (Line {line}) is empty. " ++
      s!"Execution flows directly to '{nextName}'. Missing RET?"

end AliasFinding

namespace Aliasing

/-- Whether a name is one that data usually has. -/
def isDataName (name : String) : Bool :=
  let cs := upper name.toList
  "_DATA".toList.isSuffixOf cs || holdsPiece "_STRUCT".toList cs

/-- The finding for a label and the one that follows it. -/
def finding? (symbols : Symbols) (here next : String × Int) : Option AliasFinding :=
  if here.2 = next.2 ∨ here.1 = next.1 then none
  else
    match symbols.get? here.1 with
    | some address =>
      if symbols.get? next.1 = some address then
        let kind := if isDataName here.1 then .emptyData else .fallthrough
        some ⟨kind, here.1, next.1, here.2, address⟩
      else none
    | none => none

/-- Labels in the order of their lines; labels of one line keep their order. -/
def byLine (labels : List (String × Int)) : List (String × Int) :=
  labels.mergeSort fun a b => a.2 ≤ b.2

/-- The findings for all neighbours among some labels, given with their lines. -/
def findings (labels : List (String × Int)) (symbols : Symbols) : List AliasFinding :=
  let ordered := byLine labels
  (ordered.zip (ordered.drop 1)).filterMap fun (here, next) => finding? symbols here next

/-- The findings for the labels of a layout. -/
def ofLayout (layout : Layout) : List AliasFinding :=
  findings (layout.labels.entries.map fun (name, line) => (name, line)) layout.symbols

end Aliasing

end Z80Workbench
