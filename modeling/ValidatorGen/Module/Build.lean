import ValidatorGen.Module.Basic
import ValidatorGen.Module.Location
import ValidatorGen.Module.Order
import ValidatorGen.Problem
import ValidatorGen.Schema.Legality
import ValidatorGen.Text.Ascending

/-!
# Building modules

`build` makes a module of a job. It finds out what the exported validators need, imports what lies
in other modules, collects the declarations they rely on, and makes sure that no name is declared
twice, that no field hides a declared name, and that the module can load.
-/

namespace ValidatorGen.Module

/-! ## Imports -/

/-- Where the names of one kind are, seen from a module. -/
structure Surroundings where
  base : Path
  module : Path
  locations : Table String

/-- The specifier to import a name from, unless it has no location or its location is the module
itself. -/
def Surroundings.specifier? (around : Surroundings) (name : String) : Option String :=
  match around.locations.get? name with
  | none => none
  | some location =>
    if Location.isOwn around.base location around.module then none
    else some (Location.specifier around.base around.module location)

/-- The names without a location, each once, in the order of first appearance. -/
def Surroundings.missing (around : Surroundings) (names : List String) : List String :=
  (names.filter fun name => !around.locations.has name).eraseDups

/-- The imports for a list of names: one for each specifier, specifiers and names ascending. -/
def Surroundings.imports (around : Surroundings) (names : List String) : List Import :=
  (Text.ascending (names.filterMap around.specifier?)).map fun specifier =>
    ⟨specifier, Text.ascending (names.filter (around.specifier? · = some specifier))⟩

/-! ## Declarations -/

/-- Adds declarations to those at hand, each key once. Two declarations of one key have to agree;
if they do not, the key is reported. -/
def registerFrom (registered : List Hoist) : List Hoist → Except String (List Hoist)
  | [] => .ok registered
  | hoist :: rest =>
    match registered.find? (·.key == hoist.key) with
    | none => registerFrom (registered ++ [hoist]) rest
    | some earlier =>
      if earlier.text = hoist.text then registerFrom registered rest else .error hoist.key

/-- The declarations of a module, each key once, in the order of first appearance. -/
def registerHoists (hoists : List Hoist) : Except String (List Hoist) := registerFrom [] hoists

/-- Requires identifiers for exports that no declaration of the module bears. The declared names
are returned. -/
def checkExports (file : String) (declared : List String) :
    List String → Except Problem (List String)
  | [] => .ok declared
  | name :: rest =>
    if !Code.isIdentifier name then .error (.invalidIdentifier name ("an export of " ++ file))
    else if declared.contains name then .error (.duplicateExport name file)
    else checkExports file (name :: declared) rest

/-- Requires that no field bears a declared name. -/
def checkFieldNames (file : String) (declared names : List String) : Except Problem Unit :=
  match names.find? declared.contains with
  | some name => .error (.shadowedName name file)
  | none => .ok ()

/-! ## Modules -/

/-- Everything that the exports of a job need. -/
def needsOf (exports : List (String × Schema)) : Needs :=
  Needs.collect (exports.map fun entry => entry.2.needs)

def checkerNames (needs : Needs) : List String := needs.imports.map Checker.name

/-- The names of the types to import. -/
def typeNames (needs : Needs) : List String :=
  (needs.types.filter TypeName.needsLocation).map TypeName.name

def outputPath (base output : Path) : Path := (base.join output).normalize

/-- The module of a job. -/
def build (base : Path) (preamble : String) (locations : Locations) (job : Job) :
    Except Problem Module := do
  let path := outputPath base job.output
  let file := path.text
  job.exports.forM fun entry => entry.2.check
  let needs := needsOf job.exports
  let functions : Surroundings := ⟨base, path, locations.imports⟩
  let types : Surroundings := ⟨base, path, locations.types⟩
  -- names without a location are reported before anything else that is wrong with the module
  let missing := (functions.missing (checkerNames needs)).map Unresolved.checker ++
    (types.missing (typeNames needs)).map Unresolved.type
  if !missing.isEmpty then throw (.unresolved file missing)
  let imports := functions.imports (checkerNames needs)
  let hoists ← (registerHoists needs.hoists).mapError fun key => .conflictingHoist key file
  -- declarations, imported functions and exports share one scope
  let declared ← checkExports file (hoists.map Hoist.key ++ imports.flatMap Import.names)
    (job.exports.map Prod.fst)
  checkFieldNames file declared (job.exports.flatMap fun entry => entry.2.fieldNames)
  let exports ← (loadOrder job.exports).mapError fun names => .exportCycle names file
  return {
    path := path
    preamble := preamble
    imports := imports
    typeImports := types.imports (typeNames needs)
    hoists := hoists
    exports := exports }

/-- The files of a list of jobs. Nothing is returned unless all of them succeed. -/
def files (base : Path) (preamble : String) (locations : Locations) (jobs : List Job) :
    Except Problem (List File) :=
  jobs.mapM fun job => Module.file <$> build base preamble locations job

end ValidatorGen.Module
