import ValidatorGen.Check.Evaluator
import ValidatorGen.Module.Basic
import ValidatorGen.Problem
import ValidatorGen.Schema.Read

/-!
# Configurations

A `Config` says which modules to generate, from which files their schemas come, and where the names
are that they import. It is read in two stages: its JSON has to pass the validator of `schema`,
which finds all faults of a list at once, and is then read as a record.
-/

namespace ValidatorGen

namespace Config

/-- A module to generate: the schemas to take from a file, with the names under which they are
exported, and the file to write. -/
structure Entry where
  exports : Table String
  inputFile : String
  outputFile : String
  deriving DecidableEq, Repr

end Config

/-- What to generate. -/
structure Config where
  baseDir : String
  generatedPreamble : String
  generators : List Config.Entry
  importLocations : Table String
  typeLocations : Table String
  deriving DecidableEq, Repr

namespace Config

/-! ## As a schema -/

def locationsSchema : Schema := .mapping .string .filePath

def entrySchema : Schema :=
  .object (.named "ConfigGenerator") [
    ("exports", .mapping .string .string),
    ("inputFile", .filePath),
    ("outputFile", .filePath)] []

def schema : Schema :=
  .object (.applied "Config" [.named "string", .named "string"]) [
    ("baseDir", .filePath),
    ("generatedPreamble", .string),
    ("typeLocations", locationsSchema),
    ("importLocations", locationsSchema),
    ("generators", .list entrySchema)] []

/-! ## As JSON -/

def tableToJson (table : Table String) : Json :=
  .object (table.map fun entry => (entry.1, .string entry.2))

def Entry.toJson (entry : Entry) : Json :=
  .object [
    ("exports", tableToJson entry.exports),
    ("inputFile", .string entry.inputFile),
    ("outputFile", .string entry.outputFile)]

def toJson (config : Config) : Json :=
  .object [
    ("baseDir", .string config.baseDir),
    ("generatedPreamble", .string config.generatedPreamble),
    ("generators", .array (config.generators.map Entry.toJson)),
    ("importLocations", tableToJson config.importLocations),
    ("typeLocations", tableToJson config.typeLocations)]

/-! ## As a record -/

open Json

/-- The members of an entry read so far. -/
structure Entry.Parts where
  exports : Option (Table String) := none
  inputFile : Option String := none
  outputFile : Option String := none

def Entry.record : Decoder.Record Entry.Parts Entry where
  title := "struct ConfigGenerator"
  slots := [
    ⟨"exports", (·.exports.isSome), (Decoder.table .text).map fun exports parts =>
      { parts with exports := some exports }⟩,
    ⟨"inputFile", (·.inputFile.isSome), Decoder.text.map fun file parts =>
      { parts with inputFile := some file }⟩,
    ⟨"outputFile", (·.outputFile.isSome), Decoder.text.map fun file parts =>
      { parts with outputFile := some file }⟩]
  empty := {}
  build parts := do
    let exports ← Decoder.require "exports" parts.exports
    let inputFile ← Decoder.require "inputFile" parts.inputFile
    let outputFile ← Decoder.require "outputFile" parts.outputFile
    return ⟨exports, inputFile, outputFile⟩

def Entry.decoder : Decoder Entry := .record Entry.record

structure Parts where
  baseDir : Option String := none
  generatedPreamble : Option String := none
  generators : Option (List Entry) := none
  importLocations : Option (Table String) := none
  typeLocations : Option (Table String) := none

def record : Decoder.Record Parts Config where
  title := "struct Config"
  slots := [
    ⟨"baseDir", (·.baseDir.isSome), Decoder.text.map fun directory parts =>
      { parts with baseDir := some directory }⟩,
    ⟨"generatedPreamble", (·.generatedPreamble.isSome), Decoder.text.map fun text parts =>
      { parts with generatedPreamble := some text }⟩,
    ⟨"generators", (·.generators.isSome), (Decoder.list Entry.decoder).map fun entries parts =>
      { parts with generators := some entries }⟩,
    ⟨"importLocations", (·.importLocations.isSome), (Decoder.table .text).map fun table parts =>
      { parts with importLocations := some table }⟩,
    ⟨"typeLocations", (·.typeLocations.isSome), (Decoder.table .text).map fun table parts =>
      { parts with typeLocations := some table }⟩]
  empty := {}
  build parts := do
    let baseDir ← Decoder.require "baseDir" parts.baseDir
    let generatedPreamble ← Decoder.require "generatedPreamble" parts.generatedPreamble
    let generators ← Decoder.require "generators" parts.generators
    let importLocations ← Decoder.require "importLocations" parts.importLocations
    let typeLocations ← Decoder.require "typeLocations" parts.typeLocations
    return ⟨baseDir, generatedPreamble, generators, importLocations, typeLocations⟩

def decoder : Decoder Config := .record record

/-! ## Reading a configuration -/

/-- Reads the configuration in the file of a given path. -/
def ofJson (path : Path) (json : Json) : Except Problem Config :=
  match Check.validate schema (some json) with
  | .error refusal => .error (.invalidConfig path.text refusal.message)
  -- what the schema accepts is thrown away, and the configuration is read from the JSON itself
  | .ok _ => (decoder.ofJson json).mapError fun fault => .invalidConfig path.text fault.message

/-- The base directory, seen from where the configuration file is. -/
def resolveBaseDir (config : Config) (path : Path) : Path :=
  path.directory.join ⟨config.baseDir⟩

/-! ## Locations and jobs -/

/-- A file as a location: relative, unless it is absolute. -/
def locationOfFile (file : String) : String :=
  match file.toList with
  | '.' :: '/' :: _ => file
  | '.' :: '.' :: '/' :: _ => file
  | '/' :: _ => file
  | _ => "./" ++ file

/-- The configured locations. Every exported name lies in the file that exports it, so that
validators can refer to each other. -/
def locations (config : Config) : Locations where
  types := config.typeLocations
  imports :=
    config.generators.foldl (fun table entry =>
      entry.exports.foldl (fun table renamed =>
        table.set renamed.2 (locationOfFile entry.outputFile)) table)
      config.importLocations

/-- Takes the listed schemas from a module, in the order of the module, each under the name of its
export. The first listed schema that the module lacks is reported. -/
def Entry.select (entry : Entry) (module : Table Schema) :
    Except String (List (String × Schema)) :=
  match entry.exports.names.find? fun name => !module.has name with
  | some name => .error name
  | none => .ok (module.filterMap fun named =>
      (entry.exports.get? named.1).map fun renamed => (renamed, named.2))

/-- The file that an entry takes schemas from. -/
def Entry.inputPath (entry : Entry) (base : Path) : Path := base.join ⟨entry.inputFile⟩

/-- The job of an entry, given the module that it takes schemas from. -/
def Entry.job (entry : Entry) (base : Path) (module : Table Schema) : Except Problem Job :=
  match entry.select module with
  | .error name => .error (.missingExport (entry.inputPath base).text name)
  | .ok exports => .ok ⟨⟨entry.outputFile⟩, exports⟩

end Config

end ValidatorGen
