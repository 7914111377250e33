import ValidatorGen.CommandLine.Run

/-!
# The program

Takes the actions of a run from the operating system and reports failures.
-/

namespace ValidatorGen.Main

open CommandLine

/-- The wording of a failure that the operating system reports. -/
def reason : IO.Error → String
  | .noFileOrDirectory .. => Disk.Failure.notFound.message
  | .alreadyExists .. => Disk.Failure.exists.message
  | .resourceBusy .. => Disk.Failure.busy.message
  | error => toString error

/-- An action with its failure as a reason. -/
def attempt {α : Type} (action : IO α) : IO (Except String α) := do
  try return .ok (← action) catch error => return .error (reason error)

def readText (path : Path) : IO (Except String String) := do
  match ← attempt (IO.FS.readBinFile path.text) with
  | .error message => return .error message
  | .ok bytes =>
    match String.fromUTF8? bytes with
    | some text => return .ok text
    | none => return .error Disk.Failure.notText.message

/-- The actions on the machine that the program runs on. A staged file is known by its path. -/
def system : System IO String where
  print := IO.print
  readText := readText
  makeDirectories path := attempt (IO.FS.createDirAll path.text)
  stage directory contents := attempt do
    let number ← IO.rand 0 1000000000
    let name := (directory.join ⟨".tmp" ++ toString number⟩).text
    IO.FS.writeFile name contents
    return name
  place name path := attempt (IO.FS.rename name path.text)
  discard name := discard <| attempt (IO.FS.removeFile name)

def usage : String :=
  "generate Flow deserializers from a degen config file\n\n" ++
  "Usage: degen [OPTIONS] [CONFIG]\n\n" ++
  "Arguments:\n" ++
  "  [CONFIG]  path to the config JSON file\n\n" ++
  "Options:\n" ++
  "      --stdout                     print generated files to stdout instead of writing them\n" ++
  "      --runtime-out <RUNTIME_OUT>  also write the runtime checker library to this path\n" ++
  "  -h, --help                       Print help\n" ++
  "  -V, --version                    Print version\n"

/-- The wording for arguments that do not lead to a run. -/
def refusal : Refused → String
  | .displayHelp => usage
  | .displayVersion => "degen 0.1.0\n"
  | .unknownArgument => "error: unexpected argument found\n"
  | .invalidValue => "error: a value is required but none was supplied\n"
  | .argumentConflict => "error: an argument cannot be used multiple times\n"
  | .tooManyValues => "error: unexpected value for an argument found\n"

end ValidatorGen.Main

open ValidatorGen CommandLine in
def main (arguments : List String) : IO UInt32 := do
  match Options.ofArguments arguments with
  | .error refused =>
    if refused = .displayHelp ∨ refused = .displayVersion then
      IO.print (Main.refusal refused)
      return 0
    else
      IO.eprint (Main.refusal refused)
      return 2
  | .ok options =>
    match ← run Main.system options with
    | .ok () => return 0
    | .error failure =>
      IO.eprintln ("error: " ++ failure.message)
      return 1
