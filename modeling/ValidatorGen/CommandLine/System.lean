import ValidatorGen.Disk.Write

/-!
# What a run acts on

A run of the program prints, reads files and writes them. A `System` gives it these actions, in any
monad; failures come as the reasons that a message shows. `Machine` is a model of a system: a disk
and what has been printed.
-/

namespace ValidatorGen.CommandLine

/-- The actions of a run. A file that is being written is known by a handle in `σ` until it is
placed or discarded. -/
structure System (m : Type → Type) (σ : Type) where
  print : String → m Unit
  readText : Path → m (Except String String)
  makeDirectories : Path → m (Except String Unit)
  stage : Path → String → m (Except String σ)
  place : σ → Path → m (Except String Unit)
  discard : σ → m Unit

/-- A disk and what has been printed. -/
structure Machine where
  disk : Disk
  printed : String

namespace Machine

/-- An action that may change the disk. -/
def act {α : Type} (action : Disk → Except Disk.Failure (α × Disk)) :
    StateM Machine (Except String α) := fun machine =>
  match action machine.disk with
  | .ok (value, disk) => (.ok value, { machine with disk := disk })
  | .error failure => (.error failure.message, machine)

def system : System (StateM Machine) Nat where
  print text := modify fun machine => { machine with printed := machine.printed ++ text }
  readText path := act fun disk => do return (← disk.readText path, disk)
  makeDirectories path := fun machine =>
    let (disk, result) := machine.disk.ensureDirectories path
    (result.mapError Disk.Failure.message, { machine with disk := disk })
  stage directory contents := act fun disk => disk.stage directory contents
  place number path := act fun disk => do return ((), ← disk.place number path)
  discard number := modify fun machine => { machine with disk := machine.disk.discard number }

end Machine

end ValidatorGen.CommandLine
