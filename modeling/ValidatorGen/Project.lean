import ValidatorGen.Config.Basic
import ValidatorGen.Module.Build

/-!
# Projects

Everything that a configuration file asks for, generated from files that are only read. The files
may lie on a disk or in a model of one: `read` gives the text of a file, or the problem of reading
it, in any monad.
-/

namespace ValidatorGen.Project

variable {m : Type → Type} [Monad m]

/-- Reads the files of a project. -/
abbrev Files (m : Type → Type) := Path → ExceptT Problem m String

/-- A result that needs no file. -/
def ofResult {α : Type} (result : Except Problem α) : ExceptT Problem m α :=
  ExceptT.mk (pure result)

def readTyped {α : Type} (read : Files m) (decoder : Json.Decoder α) (path : Path) :
    ExceptT Problem m α := do
  let text ← read path
  match decoder.read text with
  | .ok value => return value
  | .error fault => throw (.unparsable path.text fault.message)

def loadConfig (read : Files m) (path : Path) : ExceptT Problem m Config := do
  let json ← readTyped read Json.Decoder.json path
  ofResult (Config.ofJson path json)

/-- Reads the module of an entry and makes its job. -/
def loadJob (read : Files m) (base : Path) (entry : Config.Entry) : ExceptT Problem m Job := do
  let module ← readTyped read Schema.moduleDecoder (entry.inputPath base)
  ofResult (entry.job base module)

/-- Everything that the configuration in a file asks for. -/
def generate (read : Files m) (path : Path) : ExceptT Problem m (List File) := do
  let config ← loadConfig read path
  let base := config.resolveBaseDir path
  let jobs ← config.generators.mapM (loadJob read base)
  ofResult (Module.files base config.generatedPreamble config.locations jobs)

end ValidatorGen.Project
