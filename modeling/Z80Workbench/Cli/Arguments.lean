/-!
# Z80Workbench.Cli.Arguments

Command lines taken apart. An option is written `--name` or with its letter, and letters may be
joined in one argument. The value of an option follows it: after an equals sign for `--name`, at
once behind the letter, or as the next argument, whatever that begins with. A lone `--` ends the
options; a lone `-` is no option.
-/

namespace Z80Workbench.Cli

/-- An option of a command: its name, its letter, and whether it has a value. -/
structure OptionSpec where
  name : String
  letter : Option Char := none
  hasValue : Bool := false
  deriving Repr, DecidableEq

/-- A command line taken apart: the options in order, flags with an empty value, and the other
arguments. -/
structure Arguments where
  given : List (String × String)
  others : List String
  deriving Repr, DecidableEq

namespace Arguments

/-- Adds options in front. -/
def withOptions (a : Arguments) (options : List (String × String)) : Arguments :=
  { a with given := options ++ a.given }

/-- Adds another argument in front. -/
def withOther (a : Arguments) (other : String) : Arguments :=
  { a with others := other :: a.others }

/-- The last value given for an option. -/
def value? (a : Arguments) (name : String) : Option String :=
  (a.given.reverse.find? (·.1 = name)).map (·.2)

/-- Whether an option is given. -/
def has (a : Arguments) (name : String) : Bool := (a.value? name).isSome

end Arguments

/-- What one argument says: options, and the name of one whose value is the next argument. -/
structure Mention where
  options : List (String × String)
  pending : Option String := none

/-- Reads a name, perhaps with a value after an equals sign. -/
def readName? (specs : List OptionSpec) (text : List Char) : Option Mention :=
  let name := String.ofList (text.takeWhile (· ≠ '='))
  match specs.find? (·.name = name), text.dropWhile (· ≠ '=') with
  | none, _ => none
  | some spec, [] => if spec.hasValue then some ⟨[], name⟩ else some ⟨[(name, "")], none⟩
  | some spec, _ :: value =>
    if spec.hasValue then some ⟨[(name, String.ofList value)], none⟩ else none

/-- Reads joined letters; what stands behind the letter of an option with a value is its
value. -/
def readLetters? (specs : List OptionSpec) : List Char → Option Mention
  | [] => some ⟨[], none⟩
  | c :: rest =>
    match specs.find? (·.letter = some c) with
    | none => none
    | some spec =>
      if !spec.hasValue then
        (readLetters? specs rest).map fun m => ⟨(spec.name, "") :: m.options, m.pending⟩
      else if rest.isEmpty then some ⟨[], spec.name⟩
      else some ⟨[(spec.name, String.ofList rest)], none⟩

/-- What one argument says: `none` if it is no option, and `some none` if it is a wrong one. -/
def readOption? (specs : List OptionSpec) (argument : String) : Option (Option Mention) :=
  match argument.toList with
  | '-' :: '-' :: name => some (readName? specs name)
  | '-' :: c :: letters => some (readLetters? specs (c :: letters))
  | _ => none

namespace Arguments

/-- Takes a command line apart, which may begin with the value of an option. -/
def parseAfter? (specs : List OptionSpec) :
    (pending : Option String) → List String → Option Arguments
  | none, [] => some ⟨[], []⟩
  | some _, [] => none
  | some name, value :: rest =>
    (parseAfter? specs none rest).map (·.withOptions [(name, value)])
  | none, argument :: rest =>
    if argument = "--" then some ⟨[], rest⟩
    else
      match readOption? specs argument with
      | none => (parseAfter? specs none rest).map (·.withOther argument)
      | some none => none
      | some (some mention) =>
        (parseAfter? specs mention.pending rest).map (·.withOptions mention.options)

/-- Takes a command line apart; `none` if it holds an unknown option, a flag with a value, or an
option without its value. -/
def parse? (specs : List OptionSpec) (arguments : List String) : Option Arguments :=
  parseAfter? specs none arguments

end Arguments

end Z80Workbench.Cli
