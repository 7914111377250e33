import ValidatorGen.Code.Quoted
import ValidatorGen.Path
import ValidatorGen.Schema.Needs
import ValidatorGen.Table
import ValidatorGen.Text.Blank

/-!
# Modules of validators

A `Job` asks for a module: where it is written and which validators it exports. A `Module` is the
answer, and `Module.text` the content of its file: a preamble, the imports, the declarations that
stand once, and the exported validators, with an empty line between the blocks.
-/

namespace ValidatorGen

/-- Where the types and the functions are that modules may import. -/
structure Locations where
  types : Table String
  imports : Table String
  deriving Repr

/-- A module that is asked for. Its path starts at the base directory. -/
structure Job where
  output : Path
  exports : List (String × Schema)
  deriving Repr

/-- A file and what it holds. -/
structure File where
  path : Path
  contents : String
  deriving DecidableEq, Repr

/-- The names that a module imports from one place. -/
structure Import where
  specifier : String
  names : List String
  deriving DecidableEq, Repr

/-- A module in its parts. -/
structure Module where
  path : Path
  preamble : String
  imports : List Import
  typeImports : List Import
  hoists : List Hoist
  exports : List (String × Schema)

namespace Module

/-- An import line. -/
def importLine (keyword : String) (line : Import) : String :=
  keyword ++ " \x7b " ++ ", ".intercalate line.names ++ " \x7d from " ++ Code.quote line.specifier

/-- All import lines, those of types last. -/
def importLines (module : Module) : List String :=
  module.imports.map (importLine "import") ++ module.typeImports.map (importLine "import type")

def exportText (entry : String × Schema) : String :=
  "export const " ++ entry.1 ++ " = " ++ entry.2.render

/-- The blocks of a module; a preamble without content and an empty list of imports are none. -/
def blocks (module : Module) : List String :=
  (if Text.allBlank module.preamble then [] else [Text.trimEnd module.preamble]) ++
    (if module.importLines.isEmpty then [] else ["\n".intercalate module.importLines]) ++
    module.hoists.map Hoist.text ++ module.exports.map exportText

/-- The content of a module's file. -/
def text (module : Module) : String := "\n\n".intercalate module.blocks ++ "\n"

def file (module : Module) : File := ⟨module.path, module.text⟩

end Module

end ValidatorGen
