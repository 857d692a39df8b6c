import Z80Workbench.Text.Quoted

/-!
# Z80Workbench.Text.Json

JSON documents and their text: two spaces of indentation a level, members in the order given,
and every character beyond ASCII escaped as UTF-16 units.
-/

namespace Z80Workbench.Text

/-- A JSON document with whole numbers. -/
inductive Json where
  | bool (value : Bool)
  | number (value : Int)
  | string (value : String)
  | array (items : List Json)
  | object (members : List (String × Json))

namespace Json

/-- One UTF-16 unit as an escape. -/
def unitEscape (n : Nat) : List Char :=
  ['\\', 'u'] ++ lowerHexPadded 4 n

/-- One character inside a JSON string. -/
def stringChar (c : Char) : List Char :=
  if c = '"' ∨ c = '\\' then ['\\', c]
  else if c = '\n' then ['\\', 'n']
  else if c = '\r' then ['\\', 'r']
  else if c = '\t' then ['\\', 't']
  else if c.toNat = 8 then ['\\', 'b']
  else if c.toNat = 12 then ['\\', 'f']
  else if 32 ≤ c.toNat ∧ c.toNat < 127 then [c]
  else if c.toNat < 0x10000 then unitEscape c.toNat
  else
    let n := c.toNat - 0x10000
    unitEscape (0xD800 + n / 0x400) ++ unitEscape (0xDC00 + n % 0x400)

/-- A JSON string with its quotes. -/
def stringText (s : String) : String :=
  String.ofList ('"' :: s.toList.flatMap stringChar ++ ['"'])

/-- A line break and the indentation of a level. -/
def lineStart (level : Nat) : String :=
  String.ofList ('\n' :: List.replicate (2 * level) ' ')

/-- Brackets around items, each on a line of its own; nothing between them if there are none. -/
def bracketed (opening closing : String) (level : Nat) (items : List String) : String :=
  if items.isEmpty then opening ++ closing
  else
    opening ++ lineStart (level + 1) ++
      ("," ++ lineStart (level + 1)).intercalate items ++ lineStart level ++ closing

mutual

/-- The text of a document at a level of indentation. -/
def textAt (level : Nat) : Json → String
  | bool value => if value then "true" else "false"
  | number value => toString value
  | string value => stringText value
  | array items => bracketed "[" "]" level (itemTexts (level + 1) items)
  | object members => bracketed "\x7b" "\x7d" level (memberTexts (level + 1) members)

/-- The texts of the items of an array. -/
def itemTexts (level : Nat) : List Json → List String
  | [] => []
  | item :: rest => textAt level item :: itemTexts level rest

/-- The texts of the members of an object. -/
def memberTexts (level : Nat) : List (String × Json) → List String
  | [] => []
  | (key, value) :: rest =>
    (stringText key ++ ": " ++ textAt level value) :: memberTexts level rest

end

/-- The text of a document. -/
def text (document : Json) : String :=
  document.textAt 0

end Json

end Z80Workbench.Text
