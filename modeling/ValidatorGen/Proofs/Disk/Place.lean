import ValidatorGen.Disk.Write
import ValidatorGen.Proofs.Questions

/-!
# The place of a path

Following a path may fail, because every part but the last one has to lead through a directory.  If
it succeeds, the place that it arrives at is decided by the path and the working directory alone:
`placeOf` computes it without a look at what stands on the disk.

Whether a file can be moved to a path is decided by the directories of the disk
(`target_of_sameDirectories`).  So moving files to their places, which changes no directory, never
changes which further moves are possible.
-/

namespace ValidatorGen.Disk

variable {disk before after : Disk} {path : Path} {place start : List String}

/-! ## Places -/

/-- One step along a path. -/
def stepTo (place : List String) (part : String) : List String :=
  if part = "." then place else if part = ".." then place.dropLast else place ++ [part]

/-- The place that a path denotes, whatever stands on the way to it. -/
def placeOf (disk : Disk) (path : Path) : List String :=
  (partsOf path).foldl stepTo (disk.startOf path)

theorem startOf_congr (h : after.workingDirectory = before.workingDirectory) (path : Path) :
    after.startOf path = before.startOf path := by
  unfold startOf
  rw [h]

theorem placeOf_congr (h : after.workingDirectory = before.workingDirectory) (path : Path) :
    after.placeOf path = before.placeOf path := by
  rw [placeOf, placeOf, startOf_congr h]

theorem enter_eq_ok_iff {answer : Unit} :
    disk.enter place = .ok answer ↔ disk.get? place = some .directory := by
  unfold enter
  split <;> simp_all

theorem follow_cons_eq_ok_iff {part : String} {parts : List String} :
    disk.follow start (part :: parts) = .ok place ↔
      disk.get? start = some .directory ∧ disk.follow (stepTo start part) parts = .ok place := by
  have hstep : disk.follow start (part :: parts) =
      disk.enter start >>= fun _ => disk.follow (stepTo start part) parts := by
    rw [follow, stepTo]
    split
    · rfl
    · split <;> rfl
  rw [hstep, bind_eq_ok_iff]
  simp only [enter_eq_ok_iff, exists_const]

theorem eq_foldl_of_follow {parts : List String} (h : disk.follow start parts = .ok place) :
    place = parts.foldl stepTo start := by
  induction parts generalizing start with
  | nil => exact (Except.ok.inj h).symm
  | cons part parts ih => exact ih (follow_cons_eq_ok_iff.mp h).2

theorem follow_append_eq_ok {parts others : List String} {middle : List String}
    (h : disk.follow start parts = .ok middle) (hothers : disk.follow middle others = .ok place) :
    disk.follow start (parts ++ others) = .ok place := by
  induction parts generalizing start with
  | nil =>
      obtain rfl := Except.ok.inj h
      exact hothers
  | cons part parts ih =>
      obtain ⟨hdirectory, hrest⟩ := follow_cons_eq_ok_iff.mp h
      exact follow_cons_eq_ok_iff.mpr ⟨hdirectory, ih hrest⟩

/-! ## Where a file can be moved -/

/-- A path to which a file can be moved leads through directories to a name at which no directory
stands. -/
structure Target (disk : Disk) (path : Path) (directory : List String) (part : String) : Prop where
  nonempty : path.text ≠ ""
  last : (partsOf path).getLast? = some part
  follow : disk.follow (disk.startOf path) (partsOf path).dropLast = .ok directory
  isDirectory : disk.get? directory = some .directory
  plain : ¬(part = "." ∨ part = "..")
  unseparated : ¬endsInSeparator path = true
  free : disk.get? (directory ++ [part]) ≠ some .directory

theorem target_eq_ok_iff : disk.target path = .ok place ↔
    ∃ directory part, disk.Target path directory part ∧ place = directory ++ [part] := by
  unfold target
  simp only [bind_eq_ok_iff, unless_throw_eq_ok_iff, enter_eq_ok_iff]
  -- the checks are made one after another, each with its own error
  constructor
  · rintro ⟨hnonempty, directory, hfollow, -, hdirectory, h⟩
    split at h
    · cases h
    · next part hlast =>
        split at h
        · cases h
        · next hplain =>
            split at h
            · cases h
            · next hseparator =>
                split at h
                · cases h
                · next hfree =>
                    exact ⟨directory, part, ⟨hnonempty, hlast, hfollow, hdirectory, hplain,
                      hseparator, hfree⟩, (Except.ok.inj h).symm⟩
  · rintro ⟨directory, part, ⟨hnonempty, hlast, hfollow, hdirectory, hplain, hseparator, hfree⟩,
      rfl⟩
    refine ⟨hnonempty, directory, hfollow, (), hdirectory, ?_⟩
    simp only [hlast, hplain, hseparator, hfree, if_false]
    rfl

namespace Target

variable {directory : List String} {part : String}

theorem partsOf_eq (h : disk.Target path directory part) :
    partsOf path = (partsOf path).dropLast ++ [part] := by
  obtain ⟨hne, hlast⟩ := List.getLast?_eq_some_iff.mp h.last
  rw [hlast]
  simp

theorem stepTo_eq (h : disk.Target path directory part) :
    stepTo directory part = directory ++ [part] := by
  have hplain := not_or.mp h.plain
  rw [stepTo, if_neg hplain.1, if_neg hplain.2]

theorem placeOf_eq (h : disk.Target path directory part) :
    disk.placeOf path = directory ++ [part] := by
  rw [placeOf, h.partsOf_eq, List.foldl_append, ← eq_foldl_of_follow h.follow]
  exact h.stepTo_eq

theorem follow_parts (h : disk.Target path directory part) :
    disk.follow (disk.startOf path) (partsOf path) = .ok (directory ++ [part]) := by
  rw [h.partsOf_eq]
  refine follow_append_eq_ok h.follow (follow_cons_eq_ok_iff.mpr ⟨h.isDirectory, ?_⟩)
  rw [h.stepTo_eq]
  rfl

end Target

/-- The place of a target, at which no directory stands. -/
theorem eq_placeOf_of_target (h : disk.target path = .ok place) :
    place = disk.placeOf path ∧ place ≠ [] ∧ disk.get? place ≠ some .directory := by
  obtain ⟨directory, part, htarget, rfl⟩ := target_eq_ok_iff.mp h
  exact ⟨htarget.placeOf_eq.symm, by simp, htarget.free⟩

/-- A text that stands where a file can be moved can be read there. -/
theorem readText_of_target {contents : String} (h : disk.target path = .ok place)
    (htext : disk.get? place = some (.text contents)) : disk.readText path = .ok contents := by
  obtain ⟨directory, part, htarget, rfl⟩ := target_eq_ok_iff.mp h
  have hfind : disk.find path = .ok (directory ++ [part], some (.text contents)) := by
    unfold find
    rw [unless_throw_eq_ok_iff, bind_eq_ok_iff]
    refine ⟨htarget.nonempty, _, htarget.follow_parts, ?_⟩
    simp only [htarget.unseparated, Bool.false_and, htext]
    rfl
  unfold readText
  rw [hfind]
  rfl

/-! ## Disks with the same directories -/

/-- Two disks on which paths can be followed in the same way. -/
structure SameDirectories (before after : Disk) : Prop where
  workingDirectory : after.workingDirectory = before.workingDirectory
  directories : ∀ place, after.get? place = some .directory ↔ before.get? place = some .directory

theorem SameDirectories.refl (disk : Disk) : SameDirectories disk disk := ⟨rfl, fun _ => Iff.rfl⟩

theorem sameDirectories_staged (disk : Disk) (staged : List (Nat × String)) :
    SameDirectories disk { disk with staged := staged } := ⟨rfl, fun _ => Iff.rfl⟩

theorem SameDirectories.symm (h : SameDirectories before after) : SameDirectories after before :=
  ⟨h.workingDirectory.symm, fun place => (h.directories place).symm⟩

theorem SameDirectories.trans {middle : Disk} (h : SameDirectories before middle)
    (hafter : SameDirectories middle after) : SameDirectories before after :=
  ⟨hafter.workingDirectory.trans h.workingDirectory,
    fun place => (hafter.directories place).trans (h.directories place)⟩

/-- A path can still be followed when there are more directories. -/
theorem follow_of_directories {parts : List String}
    (h : ∀ place, before.get? place = some .directory → after.get? place = some .directory)
    (hbefore : before.follow start parts = .ok place) : after.follow start parts = .ok place := by
  induction parts generalizing start with
  | nil => exact hbefore
  | cons part parts ih =>
      obtain ⟨hdirectory, hrest⟩ := follow_cons_eq_ok_iff.mp hbefore
      exact follow_cons_eq_ok_iff.mpr ⟨h start hdirectory, ih hrest⟩

theorem target_of_sameDirectories (h : SameDirectories before after)
    (hbefore : before.target path = .ok place) : after.target path = .ok place := by
  obtain ⟨directory, part, htarget, rfl⟩ := target_eq_ok_iff.mp hbefore
  refine target_eq_ok_iff.mpr ⟨directory, part, { htarget with
    follow := ?_
    isDirectory := (h.directories _).mpr htarget.isDirectory
    free := fun hfound => htarget.free ((h.directories _).mp hfound) }, rfl⟩
  rw [startOf_congr h.workingDirectory]
  exact follow_of_directories (fun place => (h.directories place).mpr) htarget.follow

/-- Staged texts are not looked at when a path is followed. -/
theorem follow_staged (disk : Disk) (staged : List (Nat × String)) (start parts : List String) :
    { disk with staged := staged }.follow start parts = disk.follow start parts := by
  induction parts generalizing start with
  | nil => rfl
  | cons part parts ih =>
      rw [follow, follow]
      simp only [ih]
      rfl

theorem target_staged (disk : Disk) (staged : List (Nat × String)) (path : Path) :
    { disk with staged := staged }.target path = disk.target path := by
  unfold target
  simp only [follow_staged]
  rfl

/-- A text at a place where no directory stands changes no directory. -/
theorem sameDirectories_put (hplace : place ≠ []) (hfree : disk.get? place ≠ some .directory)
    (contents : String) : SameDirectories disk (disk.put place (.text contents)) := by
  refine ⟨rfl, fun other => ?_⟩
  rw [get?_put hplace]
  by_cases h : other = place
  · subst h
    simp [hfree]
  · rw [if_neg h]

end ValidatorGen.Disk
