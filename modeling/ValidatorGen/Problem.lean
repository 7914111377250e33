/-!
# Why nothing is generated

A `Problem` ends a run before anything is written. It is never a fault of a value that a validator
looks at.
-/

namespace ValidatorGen

/-- A name that has no location. -/
inductive Unresolved where
  | type (name : String)
  | checker (name : String)
  deriving DecidableEq, Repr

/-- Tells where to give the name its location. -/
def Unresolved.message : Unresolved → String
  | .type name => "  - type `" ++ name ++ "` has no entry in typeLocations"
  | .checker name => "  - import `" ++ name ++ "` has no entry in importLocations"

/-- Why nothing is generated. Files are given as they are written. -/
inductive Problem where
  | invalidIdentifier (name context : String)
  | duplicateField (type name : String)
  | duplicateVariant (type key : String)
  | duplicateExport (name file : String)
  | shadowedName (name file : String)
  | exportCycle (names : List String) (file : String)
  | conflictingHoist (key file : String)
  | unresolved (file : String) (names : List Unresolved)
  | missingExport (input name : String)
  | unreadable (path reason : String)
  | unparsable (path message : String)
  | invalidConfig (path message : String)
  deriving DecidableEq, Repr

def Problem.message : Problem → String
  | .invalidIdentifier name context =>
    "`" ++ name ++ "` is not a valid identifier for " ++ context
  | .duplicateField type name =>
    "object type `" ++ type ++ "` declares the field `" ++ name ++ "` more than once"
  | .duplicateVariant type key =>
    "sum type `" ++ type ++ "` declares the sentinel `" ++ key ++ "` more than once"
  | .duplicateExport name file =>
    file ++ " exports `" ++ name ++ "` more than once, or under a name its own declarations use"
  | .shadowedName name file =>
    "field `" ++ name ++ "` in " ++ file ++ " shadows a name declared by the module"
  | .exportCycle names file =>
    "exports in " ++ file ++ " read each other while the module loads: " ++
      ", ".intercalate names
  | .conflictingHoist key file =>
    "hoisted declaration `" ++ key ++ "` is generated with two different bodies in " ++ file
  | .unresolved file names =>
    "unresolved names in " ++ file ++ ":\n" ++ "\n".intercalate (names.map Unresolved.message)
  | .missingExport input name => input ++ " does not export `" ++ name ++ "`"
  | .unreadable path reason => "failed to read " ++ path ++ ": " ++ reason
  | .unparsable path message => "failed to parse " ++ path ++ ": " ++ message
  | .invalidConfig path message =>
    "Error deserializing config file " ++ path ++ ": " ++ message

end ValidatorGen
