import ValidatorGen.CommandLine.Run
import ValidatorGen.Proofs.Questions

/-!
# What is generated from a disk

Generating only reads.  So what a configuration asks for is a function of the texts on the disk
(`generated`), and a run that generates leaves its machine as it was (`generate_system`).

## Strategy

`Project.generate` works in any monad.  `Reads` relates an action on a machine to the outcome that
the same computation has when it is given the texts of the disk directly.  Each step of the
computation keeps the relation, whatever the monad does in between.
-/

namespace ValidatorGen

open CommandLine

/-- The texts of a disk. -/
def Disk.texts (disk : Disk) : Project.Files Id := fun path =>
  Project.ofResult ((disk.readText path).mapError fun failure =>
    .unreadable path.text failure.message)

/-- Everything that a configuration on a disk asks for. -/
def Disk.generated (disk : Disk) (path : Path) : Except Problem (List File) :=
  (Project.generate disk.texts path).run

namespace CommandLine

/-- An action is followed by another one on the machine that it leaves behind. -/
theorem run_bind {α β : Type} {action : StateM Machine α} {next : α → StateM Machine β}
    {machine later : Machine} {value : α} (h : action.run machine = (value, later)) :
    (action >>= next).run machine = (next value).run later := by
  rw [StateT.run_bind, h]
  rfl

/-- An action has an outcome on a machine, and leaves the machine as it is. -/
def Reads {α : Type} (machine : Machine) (action : ExceptT Problem (StateM Machine) α)
    (outcome : ExceptT Problem Id α) : Prop :=
  action.run.run machine = (outcome.run, machine)

namespace Reads

variable {machine : Machine} {α β : Type}

theorem pure (value : α) : Reads machine (Pure.pure value) (Pure.pure value) := rfl

theorem throw (problem : Problem) :
    Reads machine (MonadExcept.throw problem : ExceptT Problem (StateM Machine) α)
      (MonadExcept.throw problem) := rfl

theorem ofResult (result : Except Problem α) :
    Reads machine (Project.ofResult result) (Project.ofResult result) := rfl

theorem bind {action : ExceptT Problem (StateM Machine) α} {outcome : ExceptT Problem Id α}
    {next : α → ExceptT Problem (StateM Machine) β} {after : α → ExceptT Problem Id β}
    (h : Reads machine action outcome) (hnext : ∀ value, Reads machine (next value) (after value)) :
    Reads machine (action >>= next) (outcome >>= after) := by
  unfold Reads at h ⊢
  rw [ExceptT.run_bind, ExceptT.run_bind, run_bind h]
  -- an error ends both, and a value is handed on by both
  cases houtcome : outcome.run with
  | error problem => rfl
  | ok value => exact hnext value

theorem mapM {action : α → ExceptT Problem (StateM Machine) β}
    {outcome : α → ExceptT Problem Id β} (h : ∀ x, Reads machine (action x) (outcome x))
    (list : List α) : Reads machine (list.mapM action) (list.mapM outcome) := by
  induction list with
  | nil => exact pure []
  | cons head tail ih =>
      rw [List.mapM_cons, List.mapM_cons]
      exact (h head).bind fun value => ih.bind fun values => pure (value :: values)

/-- Reading a file of a machine gives its text. -/
theorem readText_system (machine : Machine) (path : Path) :
    (Machine.system.readText path).run machine =
      ((machine.disk.readText path).mapError Disk.Failure.message, machine) := by
  show Machine.act (fun disk => do return (← disk.readText path, disk)) machine = _
  dsimp only [Machine.act]
  cases machine.disk.readText path <;> rfl

theorem projectFiles (path : Path) :
    Reads machine (CommandLine.projectFiles Machine.system path) (machine.disk.texts path) := by
  unfold Reads CommandLine.projectFiles
  rw [ExceptT.run_mk, run_bind (readText_system machine path)]
  unfold Disk.texts
  cases machine.disk.readText path <;> rfl

theorem readTyped (decoder : Json.Decoder α) (path : Path) :
    Reads machine (Project.readTyped (CommandLine.projectFiles Machine.system) decoder path)
      (Project.readTyped machine.disk.texts decoder path) := by
  unfold Project.readTyped
  refine (projectFiles path).bind fun text => ?_
  cases decoder.read text with
  | error fault => exact throw _
  | ok value => exact pure value

theorem loadConfig (path : Path) :
    Reads machine (Project.loadConfig (CommandLine.projectFiles Machine.system) path)
      (Project.loadConfig machine.disk.texts path) :=
  (readTyped _ path).bind fun json => ofResult (Config.ofJson path json)

theorem loadJob (base : Path) (entry : Config.Entry) :
    Reads machine (Project.loadJob (CommandLine.projectFiles Machine.system) base entry)
      (Project.loadJob machine.disk.texts base entry) :=
  (readTyped _ _).bind fun module => ofResult (entry.job base module)

theorem generate (path : Path) :
    Reads machine (Project.generate (CommandLine.projectFiles Machine.system) path)
      (Project.generate machine.disk.texts path) :=
  (loadConfig path).bind fun config => (mapM (loadJob _) config.generators).bind fun _ => ofResult _

end Reads

/-- Generating leaves the machine as it is. -/
theorem generate_system (machine : Machine) (path : Path) :
    (generate Machine.system path).run machine = (machine.disk.generated path, machine) :=
  Reads.generate path

end CommandLine

end ValidatorGen
