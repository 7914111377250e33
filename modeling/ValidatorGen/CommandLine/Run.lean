import ValidatorGen.Check.Library
import ValidatorGen.CommandLine.Arguments
import ValidatorGen.CommandLine.System
import ValidatorGen.Project

/-!
# A run of the program

Everything is generated before anything is written. Then the files are staged one after the other,
each in the directory that it belongs to, and only when all of them are staged are they moved to
their places. If a step fails, what is still staged is discarded.
-/

namespace ValidatorGen.CommandLine

/-- Why a run ends early. -/
inductive Failure where
  | notGenerated (problem : Problem)
  | noConfig
  | directory (path : Path) (reason : String)
  | stage (path : Path) (reason : String)
  | place (path : Path) (reason : String)
  deriving DecidableEq, Repr

def Failure.message : Failure → String
  | .notGenerated problem => problem.message
  | .noConfig => "usage: degen config-file.json"
  | .directory path reason => "failed to create " ++ path.text ++ ": " ++ reason
  | .stage path reason => "failed to stage " ++ path.text ++ ": " ++ reason
  | .place path reason =>
    "failed to write " ++ path.text ++ ": failed to persist temporary file: " ++ reason ++ ": " ++
      reason

/-- The directory in which a file is staged: the one that it belongs to. -/
def stagingDirectory (path : Path) : Path :=
  if path.directory.text = "" then ⟨"."⟩ else path.directory

def shown (file : File) : String :=
  "// ----- " ++ file.path.text ++ " -----\n" ++ file.contents

/-- What is printed, given the files that were generated. -/
def output (options : Options) (files : List File) : String :=
  if options.stdout then String.join (files.map shown) else ""

/-- The files to write, given those that were generated. -/
def outputs (options : Options) (files : List File) : List File :=
  (if options.stdout then [] else files) ++
    (options.runtimeOut.map fun path => File.mk path Check.library).toList

section

variable {m : Type → Type} [Monad m] {σ : Type} (system : System m σ)

/-- Stages files in their directories. If one cannot be, none remains staged. -/
def stageAll : List File → m (Except Failure (List (Path × σ)))
  | [] => return .ok []
  | file :: files => do
    let directory := stagingDirectory file.path
    match ← system.makeDirectories directory with
    | .error reason => return .error (.directory directory reason)
    | .ok () =>
      match ← system.stage directory file.contents with
      | .error reason => return .error (.stage file.path reason)
      | .ok handle =>
        match ← stageAll files with
        | .error failure =>
          -- a later file was refused, so this one is given up as well
          system.discard handle
          return .error failure
        | .ok staged => return .ok ((file.path, handle) :: staged)

/-- Moves staged files to their places. If one cannot be, it is discarded with those after it. -/
def placeAll : List (Path × σ) → m (Except Failure Unit)
  | [] => return .ok ()
  | (path, handle) :: staged => do
    match ← system.place handle path with
    | .error reason =>
      -- the files placed before stay where they are
      system.discard handle
      staged.forM fun later => system.discard later.2
      return .error (.place path reason)
    | .ok () => placeAll staged

/-- Writes files: all of them are staged before the first is placed. -/
def writeAll (files : List File) : m (Except Failure Unit) := do
  match ← stageAll system files with
  | .error failure => return .error failure
  | .ok staged => placeAll system staged

def projectFiles : Project.Files m := fun path => ExceptT.mk do
  match ← system.readText path with
  | .ok text => return .ok text
  | .error reason => return .error (.unreadable path.text reason)

/-- Everything that a configuration asks for. -/
def generate (path : Path) : m (Except Problem (List File)) :=
  (Project.generate (projectFiles system) path).run

def run (options : Options) : m (Except Failure Unit) := do
  match options.config with
  | none => return .error .noConfig
  | some path =>
    match ← generate system path with
    | .error problem => return .error (.notGenerated problem)
    | .ok files =>
      system.print (output options files)
      writeAll system (outputs options files)

end

end ValidatorGen.CommandLine
