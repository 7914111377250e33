import ValidatorGen.Disk.Basic

/-!
# Writing to a disk

Directories are made one by one, and those that were made stay when a later one fails. A file is
written in two steps: its text is staged in a directory, which changes nothing that has a name, and
moved to its place afterwards. Moving replaces a file and fails at a directory.
-/

namespace ValidatorGen.Disk

/-! ## Making directories -/

def makeDirectory (disk : Disk) (path : Path) : Except Failure Disk := do
  if path.text = "" then throw .notFound
  let place ← disk.follow (disk.startOf path) (partsOf path)
  match disk.get? place with
  | some _ => throw .exists
  | none => return disk.put place .directory

/-- Makes one directory, unless it is there. -/
def ensureDirectory (disk : Disk) (path : Path) : Disk × Except Failure Unit :=
  match disk.makeDirectory path with
  | .ok disk => (disk, .ok ())
  | .error failure => (disk, if disk.isDirectory path then .ok () else .error failure)

/-- Makes a directory and those above it, as far as they are missing; `levels` bounds the number
of those above. -/
def ensureWithin (disk : Disk) (path : Path) : Nat → Disk × Except Failure Unit
  | 0 => disk.ensureDirectory path
  | levels + 1 =>
    if path.text = "" then (disk, .ok ())
    else
      match disk.makeDirectory path with
      | .ok disk => (disk, .ok ())
      | .error .notFound =>
        match path.parent? with
        | none => (disk, .error .notFound)
        | some parent =>
          match disk.ensureWithin parent levels with
          | (disk, .error failure) => (disk, .error failure)
          | (disk, .ok ()) => disk.ensureDirectory path
      -- a directory that is there already need not be made
      | .error failure => (disk, if disk.isDirectory path then .ok () else .error failure)

/-- Makes a directory and those above it, as far as they are missing. A path has no more
directories above it than characters. -/
def ensureDirectories (disk : Disk) (path : Path) : Disk × Except Failure Unit :=
  disk.ensureWithin path path.text.length

/-! ## Staging files -/

/-- A number under which nothing is staged. -/
def freshNumber (disk : Disk) : Nat := (disk.staged.map Prod.fst).foldl max 0 + 1

def stage (disk : Disk) (directory : Path) (contents : String) : Except Failure (Nat × Disk) :=
  if disk.isDirectory directory then
    let number := disk.freshNumber
    .ok (number, { disk with staged := (number, contents) :: disk.staged })
  else .error .notFound

/-- Gives up a staged text. -/
def discard (disk : Disk) (number : Nat) : Disk :=
  { disk with staged := disk.staged.filter (·.1 ≠ number) }

/-- The place to which a file of a given path can be moved. -/
def target (disk : Disk) (path : Path) : Except Failure (List String) := do
  if path.text = "" then throw .notFound
  let parts := partsOf path
  let directory ← disk.follow (disk.startOf path) parts.dropLast
  disk.enter directory
  match parts.getLast? with
  | none => throw .busy
  | some part =>
    if part = "." ∨ part = ".." then throw .busy
    else if endsInSeparator path then throw .notADirectory
    else if disk.get? (directory ++ [part]) = some .directory then throw .isADirectory
    else return directory ++ [part]

/-- Moves a staged text to its place. -/
def place (disk : Disk) (number : Nat) (path : Path) : Except Failure Disk :=
  match disk.staged.lookup number with
  | none => .error .notFound
  | some contents => do
    let target ← disk.target path
    return (disk.discard number).put target (.text contents)

end ValidatorGen.Disk
