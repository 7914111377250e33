import ValidatorGen.Path

/-!
# Command line arguments

The program takes the path of a configuration file and two options: `--stdout` prints what would be
written, and `--runtime-out` names a file for the library of checkers.

Arguments are taken from left to right. A value is checked when the next option, or the end, shows
that nothing more belongs to it; an argument that is unknown, or that has a value it cannot have, is
refused at once. Behind `--` every argument is a word.
-/

namespace ValidatorGen.CommandLine

/-- What the arguments ask for. -/
structure Options where
  config : Option Path
  stdout : Bool
  runtimeOut : Option Path
  deriving DecidableEq, Repr

/-- Why the arguments do not lead to a run. -/
inductive Refused where
  | displayHelp
  | displayVersion
  | unknownArgument
  | invalidValue
  | argumentConflict
  | tooManyValues
  deriving DecidableEq, Repr

inductive Shape where
  | word
  | separator
  | long (name : String) (value : Option String)
  | short (first : Char)
  deriving DecidableEq, Repr

/-- The shape of an argument; a single hyphen is a word. -/
def shapeOf (argument : String) : Shape :=
  match argument.toList with
  | ['-', '-'] => .separator
  | '-' :: '-' :: text =>
    let name := text.takeWhile (· ≠ '=')
    let value := match text.dropWhile (· ≠ '=') with
      | [] => none
      | _ :: value => some (String.ofList value)
    .long (String.ofList name) value
  | '-' :: first :: _ => .short first
  | _ => .word

/-- A value that is not checked yet. -/
inductive Pending where
  | nothing
  | config (text : String)
  | runtimeOut (text : Option String)
  deriving DecidableEq, Repr

/-- The arguments taken so far. -/
structure State where
  options : Options
  pending : Pending
  hasWord : Bool
  onlyWords : Bool
  deriving Repr

def State.start : State := ⟨⟨none, false, none⟩, .nothing, false, false⟩

/-- Checks the value that is pending. -/
def State.settle (state : State) : Except Refused State :=
  let settled (options : Options) : Except Refused State :=
    .ok { state with options := options, pending := .nothing }
  match state.pending with
  | .nothing => .ok state
  | .config text =>
    if text = "" then .error .invalidValue
    else settled { state.options with config := some ⟨text⟩ }
  | .runtimeOut none => .error .invalidValue
  | .runtimeOut (some text) =>
    if state.options.runtimeOut.isSome then .error .argumentConflict
    else if text = "" then .error .invalidValue
    else settled { state.options with runtimeOut := some ⟨text⟩ }

/-- Takes a word: the path of the configuration. -/
def State.takeWord (state : State) (text : String) : Except Refused State :=
  if state.hasWord then .error .unknownArgument
  else do
    let state ← state.settle
    return { state with pending := .config text, hasWord := true }

/-- Takes an option without a value. -/
def State.takeFlag (state : State) (name : String) : Except Refused State := do
  let state ← state.settle
  if name = "stdout" then
    if state.options.stdout then throw .argumentConflict
    else return { state with options := { state.options with stdout := true } }
  else if name = "help" then throw .displayHelp
  else throw .displayVersion

/-- The options that have no value. -/
def flags : List String := ["stdout", "help", "version"]

/-- Takes an option that is written out. -/
def State.takeLong (state : State) (name : String) (value : Option String) :
    Except Refused State :=
  if flags.contains name then
    if value.isSome then .error .tooManyValues else state.takeFlag name
  else if name = "runtime-out" then do
    let state ← state.settle
    let state := { state with pending := .runtimeOut value }
    if value.isSome then state.settle else return state
  else .error .unknownArgument

def State.take (state : State) (argument : String) : Except Refused State :=
  if state.onlyWords then state.takeWord argument
  else
    match shapeOf argument with
    | .separator => .ok { state with onlyWords := true }
    | .long name value => state.takeLong name value
    | .short 'h' => state.takeFlag "help"
    | .short 'V' => state.takeFlag "version"
    | .short _ => .error .unknownArgument
    | .word =>
      if state.pending = .runtimeOut none then
        .ok { state with pending := .runtimeOut (some argument) }
      else state.takeWord argument

def Options.ofArguments (arguments : List String) : Except Refused Options := do
  let state ← arguments.foldlM State.take State.start
  let state ← state.settle
  return state.options

end ValidatorGen.CommandLine
