import Mathlib.Logic.Function.Basic
import ValidatorGen.Module.Basic
import ValidatorGen.Proofs.Disk.Directories

/-!
# Files put over those of a disk

`overlaid` is what the regular files of a disk are after other files have been put at their places,
one after the other: at each place the last one that was put there, and whatever stood there before
if none was (`overlaid_last`, `overlaid_of_forall_ne`).  Moving files to their places does just
that, as long as each of them can be moved (`file?_overlay`).
-/

namespace ValidatorGen.Disk

variable {disk : Disk} {placeOf : Path → List String} {place : List String} {files : List File}
  {regular : List String → Option Entry}

/-- The regular file at a place; a directory is none. -/
def file? (disk : Disk) (place : List String) : Option Entry :=
  match disk.get? place with
  | some .directory => none
  | entry => entry

/-- Regular files, with other files put over them in their order. -/
def overlaid (placeOf : Path → List String) (regular : List String → Option Entry)
    (files : List File) : List String → Option Entry :=
  files.foldl (fun current file =>
    Function.update current (placeOf file.path) (some (.text file.contents))) regular

/-- The disk with files put at their places, one after the other. -/
def overlay (disk : Disk) (files : List File) : Disk :=
  files.foldl (fun disk file => disk.put (disk.placeOf file.path) (.text file.contents)) disk

theorem overlaid_cons (file : File) : overlaid placeOf regular (file :: files) =
    overlaid placeOf (Function.update regular (placeOf file.path) (some (.text file.contents)))
      files := rfl

theorem overlay_cons (file : File) : disk.overlay (file :: files) =
    (disk.put (disk.placeOf file.path) (.text file.contents)).overlay files := rfl

/-- A place that no file is put at keeps what stands there. -/
theorem overlaid_of_forall_ne (h : ∀ file ∈ files, placeOf file.path ≠ place) :
    overlaid placeOf regular files place = regular place := by
  induction files generalizing regular with
  | nil => rfl
  | cons file files ih =>
      rw [List.forall_mem_cons] at h
      rw [overlaid_cons, ih h.2, Function.update_of_ne h.1.symm]

/-- The last file that is put at a place is the one that stands there. -/
theorem overlaid_last {earlier later : List File} {file : File}
    (h : ∀ other ∈ later, placeOf other.path ≠ placeOf file.path) :
    overlaid placeOf regular (earlier ++ file :: later) (placeOf file.path) =
      some (.text file.contents) := by
  induction earlier generalizing regular with
  | nil =>
      rw [List.nil_append, overlaid_cons, overlaid_of_forall_ne h, Function.update_self]
  | cons first earlier ih => exact ih

theorem file?_put (hplace : place ≠ []) (contents : String) :
    (disk.put place (.text contents)).file? =
      Function.update disk.file? place (some (.text contents)) := by
  funext other
  unfold file?
  rw [get?_put hplace]
  by_cases h : other = place
  · subst h
    rw [if_pos rfl, Function.update_self]
  · rw [if_neg h, Function.update_of_ne h]

/-- New directories leave the regular files as they are. -/
theorem Grown.file? {paths : Path → Prop} {after : Disk} (h : Grown paths disk after) :
    after.file? = disk.file? := by
  funext place
  unfold Disk.file?
  rcases h.get? place with hsame | ⟨hnone, hmade, -⟩
  · rw [hsame]
  · rw [hnone, hmade]

/-- Every file of a list can be moved to its place. -/
def AllTargets (disk : Disk) (files : List File) : Prop :=
  ∀ file ∈ files, disk.target file.path = .ok (disk.placeOf file.path)

theorem AllTargets.of_sameDirectories {after : Disk} (h : disk.AllTargets files)
    (hsame : SameDirectories disk after) : after.AllTargets files := by
  intro file hfile
  rw [placeOf_congr hsame.workingDirectory]
  exact target_of_sameDirectories hsame (h file hfile)

/-- Putting files where they can be moved changes no directory. -/
theorem sameDirectories_overlay (h : disk.AllTargets files) :
    SameDirectories disk (disk.overlay files) := by
  induction files generalizing disk with
  | nil => exact .refl disk
  | cons file files ih =>
      obtain ⟨-, hplace, hfree⟩ := eq_placeOf_of_target (h file List.mem_cons_self)
      have hput := sameDirectories_put hplace hfree file.contents
      have hothers : disk.AllTargets files := fun other hother =>
        h other (List.mem_cons_of_mem _ hother)
      exact hput.trans (ih (hothers.of_sameDirectories hput))

/-- The regular files, after files have been put where they can be moved. -/
theorem file?_overlay (h : disk.AllTargets files) :
    (disk.overlay files).file? = overlaid disk.placeOf disk.file? files := by
  induction files generalizing disk with
  | nil => rfl
  | cons file files ih =>
      obtain ⟨-, hplace, hfree⟩ := eq_placeOf_of_target (h file List.mem_cons_self)
      have hput := sameDirectories_put hplace hfree file.contents
      have hothers : disk.AllTargets files := fun other hother =>
        h other (List.mem_cons_of_mem _ hother)
      have hpaths : (disk.put (disk.placeOf file.path) (.text file.contents)).placeOf =
          disk.placeOf := funext fun path => placeOf_congr hput.workingDirectory path
      rw [overlay_cons, ih (hothers.of_sameDirectories hput), hpaths, file?_put hplace,
        overlaid_cons]

theorem overlay_staged (disk : Disk) (staged : List (Nat × String)) (files : List File) :
    { disk with staged := staged }.overlay files =
      { disk.overlay files with staged := staged } := by
  induction files generalizing disk with
  | nil => rfl
  | cons file files ih =>
      rw [overlay_cons, overlay_cons, ← ih]
      rfl

end ValidatorGen.Disk
