import ValidatorGen.Path

/-!
# Disks

A `Disk` holds texts, other files and directories under the names that lead to them from the root,
and a working directory from which paths are followed. Following a path needs every directory on
the way to exist; the failures are those that an operating system reports.

Files that are being written are staged: they have numbers instead of names until they are moved to
their places (`ValidatorGen.Disk.Write`).
-/

namespace ValidatorGen

/-- What stands under a name. -/
inductive Disk.Entry where
  | text (contents : String)
  /-- A file whose bytes are no text. -/
  | bytes (contents : List UInt8)
  | directory
  deriving DecidableEq, Repr

/-- Files and directories, each under the names that lead to it from the root, and the texts that
are staged under numbers. -/
structure Disk where
  entries : List (List String × Disk.Entry)
  staged : List (Nat × String)
  workingDirectory : List String
  deriving Repr

namespace Disk

/-- Why the disk cannot do what it is asked. -/
inductive Failure where
  | notFound
  | busy
  | exists
  | notADirectory
  | isADirectory
  | notText
  deriving DecidableEq, Repr

def Failure.message : Failure → String
  | .notFound => "No such file or directory (os error 2)"
  | .busy => "Device or resource busy (os error 16)"
  | .exists => "File exists (os error 17)"
  | .notADirectory => "Not a directory (os error 20)"
  | .isADirectory => "Is a directory (os error 21)"
  | .notText => "stream did not contain valid UTF-8"

/-- A disk with an empty working directory, which lies below the root. -/
def fresh : Disk := ⟨[(["work"], .directory)], [], ["work"]⟩

/-- What stands at a place; the root is a directory. -/
def get? (disk : Disk) (place : List String) : Option Entry :=
  if place = [] then some .directory else disk.entries.lookup place

/-- The disk with something else at a place. -/
def put (disk : Disk) (place : List String) (entry : Entry) : Disk :=
  { disk with entries := (place, entry) :: disk.entries.filter (·.1 ≠ place) }

theorem get?_put {place : List String} (hplace : place ≠ []) (disk : Disk) (entry : Entry)
    (other : List String) :
    (disk.put place entry).get? other =
      if other = place then some entry else disk.get? other := by
  unfold get? put
  by_cases h : other = place
  · simp [h, hplace]
  · -- dropping the entries of one place leaves those of the others
    have hfilter : ∀ entries : List (List String × Entry),
        (entries.filter (·.1 ≠ place)).lookup other = entries.lookup other := by
      intro entries
      induction entries with
      | nil => rfl
      | cons head tail ih =>
        obtain ⟨place', entry'⟩ := head
        by_cases hhead : place' = place
        · simpa [List.filter_cons, hhead, List.lookup_cons, beq_eq_false_iff_ne.mpr h] using ih
        · simp only [List.filter_cons, hhead, ne_eq, not_false_eq_true, decide_true, if_true,
            List.lookup_cons, ih]
    have hne : (other == place) = false := beq_eq_false_iff_ne.mpr h
    simp only [List.lookup_cons, hne, hfilter, h, if_false]

/-- Whether a place is a directory that can be entered. -/
def enter (disk : Disk) (place : List String) : Except Failure Unit :=
  match disk.get? place with
  | some .directory => .ok ()
  | some _ => .error .notADirectory
  | none => .error .notFound

/-- Follows the parts of a path. Each step is made from a directory. -/
def follow (disk : Disk) (place : List String) : List String → Except Failure (List String)
  | [] => .ok place
  | part :: parts => do
    disk.enter place
    if part = "." then disk.follow place parts
    else if part = ".." then disk.follow place.dropLast parts
    else disk.follow (place ++ [part]) parts

/-- The parts of a path without the blank ones. -/
def partsOf (path : Path) : List String :=
  ((Text.cut '/' path.text.toList).filter (· ≠ [])).map String.ofList

/-- Where a path begins. -/
def startOf (disk : Disk) (path : Path) : List String :=
  if path.isAbsolute then [] else disk.workingDirectory

/-- Whether a path ends in a separator, as only a directory's may. -/
def endsInSeparator (path : Path) : Bool := path.text.toList.getLast? = some '/'

/-- The place of a path and what stands there. -/
def find (disk : Disk) (path : Path) : Except Failure (List String × Option Entry) := do
  if path.text = "" then throw .notFound
  let place ← disk.follow (disk.startOf path) (partsOf path)
  let entry := disk.get? place
  -- a separator at the end asks for a directory
  if endsInSeparator path && entry.isSome then disk.enter place
  return (place, entry)

def readText (disk : Disk) (path : Path) : Except Failure String := do
  match (← disk.find path).2 with
  | some (.text contents) => return contents
  | some (.bytes _) => throw .notText
  | some .directory => throw .isADirectory
  | none => throw .notFound

def isDirectory (disk : Disk) (path : Path) : Bool :=
  match disk.find path with
  | .ok (_, some .directory) => true
  | _ => false

end Disk

end ValidatorGen
