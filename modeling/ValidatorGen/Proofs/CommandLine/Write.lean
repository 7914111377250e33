import ValidatorGen.Proofs.CommandLine.Generate
import ValidatorGen.Proofs.Disk.Directories
import ValidatorGen.Proofs.Disk.Overlay
import ValidatorGen.Proofs.Disk.Staged

/-!
# What a run does to a disk

A run writes all of its files or none, except for one case: a file that cannot be moved to its place
stops the run, and those before it have been written by then.  Everything else that may go wrong
goes wrong before a single file is moved.  If nothing is generated the disk is as it was; if the
directory of a file cannot be made, at whatever position the file stands, there are new directories
and nothing else.  Both parts are put together in `writes_allOrNothing`.

## Strategy

What it takes to stage all files is said about the disk alone: `Prepares` makes the directory of one
file after the other, and `Unprepared` is the first one that cannot be made.  Staging succeeds
exactly in the first case (`stagingEnds_stageAll`), because a text can be staged wherever there is a
directory (`stage_eq_ok_of_ensureDirectories`).  The texts that are staged between one directory and
the next make no difference to the directories (`Prepares.withStaged`).

For placing the induction is on the files again (`placingEnds_placeAll`).  It is carried by
`SameDirectories`: a file at its place changes no directory, hence not what becomes of the next one.
-/

namespace ValidatorGen.CommandLine

open Disk

/-! ## The actions -/

theorem run_print (machine : Machine) (text : String) :
    (Machine.system.print text).run machine =
      ((), { machine with printed := machine.printed ++ text }) := rfl

theorem run_makeDirectories (machine : Machine) (path : Path) :
    (Machine.system.makeDirectories path).run machine =
      ((machine.disk.ensureDirectories path).2.mapError Disk.Failure.message,
        { machine with disk := (machine.disk.ensureDirectories path).1 }) := rfl

theorem run_discard (machine : Machine) (number : Nat) :
    (Machine.system.discard number).run machine =
      ((), { machine with disk := machine.disk.discard number }) := rfl

theorem run_stage_ok (machine : Machine) {disk : Disk} {directory : Path} {contents : String}
    {number : Nat}
    (h : machine.disk.stage directory contents = .ok (number, disk)) :
    (Machine.system.stage directory contents).run machine =
      (.ok number, { machine with disk := disk }) := by
  show Machine.act (fun disk => disk.stage directory contents) machine = _
  rw [Machine.act, h]

theorem run_place_ok (machine : Machine) {disk : Disk} {number : Nat} {path : Path}
    (h : machine.disk.place number path = .ok disk) :
    (Machine.system.place number path).run machine = (.ok (), { machine with disk := disk }) := by
  show Machine.act (fun disk => do return ((), ← disk.place number path)) machine = _
  dsimp only [Machine.act]
  rw [h]
  rfl

theorem run_place_error (machine : Machine) {number : Nat} {path : Path} {failure : Disk.Failure}
    (h : machine.disk.place number path = .error failure) :
    (Machine.system.place number path).run machine = (.error failure.message, machine) := by
  show Machine.act (fun disk => do return ((), ← disk.place number path)) machine = _
  dsimp only [Machine.act]
  rw [h]
  rfl

/-! ## Staging -/

/-- A directory that is made for the sake of files: one in which a file is staged, or one above. -/
def MadeFor (files : List File) (path : Path) : Prop :=
  ∃ file ∈ files, path.Above (stagingDirectory file.path)

/-- The directories of files are there or are made, one after the other. That is all it takes to
stage the files. -/
inductive Prepares : Disk → List File → Disk → Prop where
  | nil (disk : Disk) : Prepares disk [] disk
  | cons {before middle after : Disk} {file : File} {files : List File} :
      before.ensureDirectories (stagingDirectory file.path) = (middle, .ok ()) →
      Prepares middle files after → Prepares before (file :: files) after

/-- The directory of a file cannot be made, after those of the first `count` files.  The disk is
left as the attempt leaves it. -/
structure Unprepared (before : Disk) (files : List File) (count : Nat) (file : File)
    (reason : Disk.Failure) (after : Disk) : Prop where
  position : files[count]? = some file
  refused : ∃ middle, Prepares before (files.take count) middle ∧
    middle.ensureDirectories (stagingDirectory file.path) = (after, .error reason)

section

variable {before middle after other : Disk} {file file' : File} {files : List File}
  {count count' : Nat} {reason reason' : Disk.Failure}

theorem stagingDirectory_text_ne (path : Path) : (stagingDirectory path).text ≠ "" := by
  unfold stagingDirectory
  split
  · simp
  · next h => exact h

/-- A text can be staged once the directory of its file is there. -/
theorem stage_eq_ok_of_ensureDirectories (contents : String)
    (h : before.ensureDirectories (stagingDirectory file.path) = (after, .ok ())) :
    after.stage (stagingDirectory file.path) contents = .ok (after.freshNumber,
      { after with staged := (after.freshNumber, contents) :: after.staged }) :=
  if_pos (isDirectory_of_ensureDirectories (stagingDirectory_text_ne file.path) h)

theorem MadeFor.of_mem (hfile : file ∈ files) {path : Path}
    (h : path.Above (stagingDirectory file.path)) : MadeFor files path := ⟨file, hfile, h⟩

theorem grown_of_ensureDirectories {result : Except Disk.Failure Unit} (hfile : file ∈ files)
    (h : before.ensureDirectories (stagingDirectory file.path) = (after, result)) :
    Grown (MadeFor files) before after := by
  have hgrown := (grown_ensureDirectories before (stagingDirectory file.path)).mono
    fun _ => MadeFor.of_mem hfile
  rwa [h] at hgrown

theorem Prepares.grown (h : Prepares before files after) :
    Grown (MadeFor files) before after := by
  induction h with
  | nil disk => exact .refl _ disk
  | cons hfirst _ ih =>
      refine (grown_of_ensureDirectories List.mem_cons_self hfirst).trans (ih.mono ?_)
      exact fun path ⟨file, hfile, h⟩ => ⟨file, List.mem_cons_of_mem _ hfile, h⟩

theorem Unprepared.grown (h : Unprepared before files count file reason after) :
    Grown (MadeFor files) before after := by
  obtain ⟨middle, hprepares, hrefused⟩ := h.refused
  refine (hprepares.grown.mono ?_).trans
    (grown_of_ensureDirectories (List.mem_of_getElem? h.position) hrefused)
  exact fun path ⟨file, hfile, h⟩ => ⟨file, List.mem_of_mem_take hfile, h⟩

/-- What is staged makes no difference to the directories. -/
theorem Prepares.withStaged (h : Prepares before files after) (staged : List (Nat × String)) :
    Prepares { before with staged := staged } files { after with staged := staged } := by
  induction h with
  | nil disk => exact .nil _
  | cons hfirst _ ih =>
      refine .cons ?_ ih
      rw [ensureDirectories_staged, hfirst]

theorem Unprepared.withStaged (h : Unprepared before files count file reason after)
    (staged : List (Nat × String)) :
    Unprepared { before with staged := staged } files count file reason
      { after with staged := staged } := by
  obtain ⟨middle, hprepares, hrefused⟩ := h.refused
  refine ⟨h.position, _, hprepares.withStaged staged, ?_⟩
  rw [ensureDirectories_staged, hrefused]

/-- The directory that cannot be made is that of the first file or that of a later one. -/
theorem unprepared_cons_iff : Unprepared before (file :: files) count file' reason after ↔
    (count = 0 ∧ file' = file ∧
      before.ensureDirectories (stagingDirectory file.path) = (after, .error reason)) ∨
    ∃ later middle, count = later + 1 ∧
      before.ensureDirectories (stagingDirectory file.path) = (middle, .ok ()) ∧
        Unprepared middle files later file' reason after := by
  constructor
  · rintro ⟨hposition, middle, hprepares, hrefused⟩
    cases count with
    | zero =>
        cases hprepares
        obtain rfl := Option.some.inj hposition
        exact Or.inl ⟨rfl, rfl, hrefused⟩
    | succ later =>
        cases hprepares with
        | cons hfirst hprepares =>
            exact Or.inr ⟨later, _, rfl, hfirst, hposition, middle, hprepares, hrefused⟩
  · rintro (⟨rfl, rfl, hrefused⟩ | ⟨later, middle, rfl, hfirst, h⟩)
    · exact ⟨rfl, before, .nil before, hrefused⟩
    · obtain ⟨last, hprepares, hrefused⟩ := h.refused
      exact ⟨h.position, last, .cons hfirst hprepares, hrefused⟩

/-- Where all directories are made, none is refused. -/
theorem Prepares.not_unprepared (h : Prepares before files after) :
    ¬Unprepared before files count file reason other := by
  induction h generalizing count with
  | nil disk => exact fun hunprepared => by cases hunprepared.position
  | cons hfirst _ ih =>
      rw [unprepared_cons_iff]
      rintro (⟨-, -, hrefused⟩ | ⟨later, middle, -, hfirst', hlater⟩)
      · cases hfirst.symm.trans hrefused
      · obtain ⟨rfl, -⟩ := Prod.mk.inj (hfirst.symm.trans hfirst')
        exact ih hlater

/-- At most one directory is the first that cannot be made. -/
theorem Unprepared.unique (h : Unprepared before files count file reason after)
    (h' : Unprepared before files count' file' reason' other) :
    file = file' ∧ reason = reason' ∧ after = other := by
  induction files generalizing before count count' with
  | nil => cases h.position
  | cons first files ih =>
      rw [unprepared_cons_iff] at h h'
      rcases h with ⟨-, rfl, hrefused⟩ | ⟨later, middle, -, hfirst, h⟩ <;>
        rcases h' with ⟨-, rfl, hrefused'⟩ | ⟨later', middle', -, hfirst', h'⟩
      · obtain ⟨rfl, hreason⟩ := Prod.mk.inj (hrefused.symm.trans hrefused')
        exact ⟨rfl, Except.error.inj hreason, rfl⟩
      · cases hrefused.symm.trans hfirst'
      · cases hfirst.symm.trans hrefused'
      · obtain ⟨rfl, -⟩ := Prod.mk.inj (hfirst.symm.trans hfirst')
        exact ih h h'

end

/-- What staging files leads to. If the directory of each of them is there or can be made, their
texts are staged; otherwise only directories have been made. -/
def StagingEnds (before : Disk) (files : List File) :
    Except Failure (List (Path × Nat)) × Machine → Prop
  | (.error failure, after) => ∃ count file reason,
    Unprepared before files count file reason after.disk ∧
      failure = .directory (stagingDirectory file.path) reason.message
  | (.ok staged, after) => ∃ ready held, Prepares before files ready ∧
    Held before.staged files staged held ∧ after.disk = { ready with staged := held }

theorem stagingEnds_stageAll (machine : Machine) (files : List File) :
    StagingEnds machine.disk files ((stageAll Machine.system files).run machine) := by
  induction files generalizing machine with
  | nil => exact ⟨machine.disk, machine.disk.staged, .nil _, .nil _, rfl⟩
  | cons file files ih =>
      rw [stageAll, run_bind (run_makeDirectories machine _)]
      rcases hensured : machine.disk.ensureDirectories (stagingDirectory file.path) with
        ⟨disk, failure | ⟨⟩⟩
      · -- the directory of the first file is refused
        exact ⟨0, file, failure, ⟨rfl, machine.disk, .nil _, hensured⟩, rfl⟩
      · have hstage := stage_eq_ok_of_ensureDirectories file.contents hensured
        have hnew := disk.freshNumber_notMem
        generalize disk.freshNumber = number at hstage hnew
        have hkept := (grown_of_ensureDirectories (List.mem_singleton_self file) hensured).staged
        dsimp only [Except.mapError]
        rw [run_bind (run_stage_ok { machine with disk := disk } hstage)]
        dsimp only
        have hrest := ih { machine with
          disk := { disk with staged := (number, file.contents) :: disk.staged } }
        rcases hlater : (stageAll Machine.system files).run { machine with
          disk := { disk with staged := (number, file.contents) :: disk.staged } } with
          ⟨failure | staged, later⟩ <;> rw [hlater] at hrest <;> rw [run_bind hlater]
        · -- a later file is refused, and the text is given up again
          obtain ⟨count, file', reason, hunprepared, hfailure⟩ := hrest
          refine ⟨count + 1, file', reason, ?_, hfailure⟩
          have hdiscard : later.disk.discard number =
              { later.disk with staged := disk.staged } := by
            rw [Disk.discard, hunprepared.grown.staged, filter_cons_self hnew]
          show Unprepared _ _ _ _ _ (later.disk.discard number)
          rw [hdiscard]
          exact unprepared_cons_iff.mpr
            (Or.inr ⟨count, disk, rfl, hensured, hunprepared.withStaged disk.staged⟩)
        · obtain ⟨ready, held, hprepares, hheld, hafter⟩ := hrest
          rw [hkept] at hnew hheld
          exact ⟨_, held, .cons hensured (hprepares.withStaged disk.staged), .cons hnew hheld,
            hafter⟩

/-! ## Placing -/

theorem run_discardAll (machine : Machine) (staged : List (Path × Nat)) :
    (staged.forM fun later => Machine.system.discard later.2).run machine =
      ((), { machine with
        disk := staged.foldl (fun disk entry => disk.discard entry.2) machine.disk }) := by
  induction staged generalizing machine with
  | nil => rfl
  | cons entry staged ih =>
      show ((Machine.system.discard entry.2) >>= fun _ => staged.forM _).run machine = _
      rw [run_bind (run_discard machine entry.2), ih]
      rfl

/-- What placing staged files leads to: some of them are put at their places, one after the other,
and nothing remains staged.  All of them are, unless the next one cannot be. -/
inductive PlacingEnds (before : Disk) (base : List (Nat × String)) (files : List File) :
    Except Failure Unit × Machine → Prop where
  | placed {machine : Machine} : before.AllTargets files →
      machine.disk = { before.overlay files with staged := base } →
      PlacingEnds before base files (.ok (), machine)
  | stopped {machine : Machine} (count : Nat) {file : File} {reason : Disk.Failure} :
      files[count]? = some file → before.AllTargets (files.take count) →
      machine.disk = { before.overlay (files.take count) with staged := base } →
      machine.disk.target file.path = .error reason →
      PlacingEnds before base files (.error (.place file.path reason.message), machine)

theorem place_eq {disk : Disk} {number : Nat} {contents : String} (path : Path)
    (h : disk.staged.lookup number = some contents) :
    disk.place number path = disk.target path >>= fun place =>
      .ok ((disk.discard number).put place (.text contents)) := by
  rw [place, h]
  rfl

/-- A file that is put at its place first is put there before the others are. -/
theorem PlacingEnds.cons {before : Disk} {base : List (Nat × String)} {file : File}
    {files : List File} {number : Nat} {place : List String} {ends : Except Failure Unit × Machine}
    (htarget : before.target file.path = .ok place)
    (h : PlacingEnds ((before.discard number).put place (.text file.contents)) base files ends) :
    PlacingEnds before base (file :: files) ends := by
  obtain ⟨rfl, hplace, hfree⟩ := eq_placeOf_of_target htarget
  have hput : SameDirectories before
      ((before.discard number).put (before.placeOf file.path) (.text file.contents)) :=
    (sameDirectories_put hplace hfree file.contents).trans (sameDirectories_staged _ _)
  have htargets (others : List File) (hothers : AllTargets
      ((before.discard number).put (before.placeOf file.path) (.text file.contents)) others) :
      before.AllTargets (file :: others) :=
    List.forall_mem_cons.mpr ⟨htarget, hothers.of_sameDirectories hput.symm⟩
  have hoverlay (others : List File) :
      { ((before.discard number).put (before.placeOf file.path) (.text file.contents)).overlay
          others with staged := base } =
        { before.overlay (file :: others) with staged := base } := by
    have hstaged := overlay_staged (before.put (before.placeOf file.path) (.text file.contents))
      (before.discard number).staged others
    rw [overlay_cons]
    exact congrArg (fun disk : Disk => { disk with staged := base }) hstaged
  cases h with
  | placed hall hdisk => exact .placed (htargets files hall) (hdisk.trans (hoverlay files))
  | stopped count hfile hall hdisk herror =>
      exact .stopped (count + 1) hfile (htargets _ hall) (hdisk.trans (hoverlay _)) herror

theorem placingEnds_placeAll {base : List (Nat × String)} {files : List File}
    {staged : List (Path × Nat)} (machine : Machine)
    (h : Held base files staged machine.disk.staged) :
    PlacingEnds machine.disk base files ((placeAll Machine.system staged).run machine) := by
  induction staged generalizing base files machine with
  | nil =>
      generalize hheld : machine.disk.staged = held at h
      cases h with
      | nil => exact .placed (by simp [AllTargets]) (by rw [← hheld]; rfl)
  | cons entry staged ih =>
      generalize hheld : machine.disk.staged = held at h
      cases h with
      | @cons _ file files number _ _ hnew hrest =>
          have hlookup := hrest.lookup
          have hlater := hrest.discard hnew
          rw [← hheld] at hlookup hlater
          have hplace := place_eq file.path hlookup
          cases htarget : machine.disk.target file.path with
          -- the texts that are still held are all given up
          | error reason =>
              rw [htarget] at hplace
              rw [placeAll, run_bind (run_place_error machine hplace), run_bind (run_discard _ _),
                run_bind (run_discardAll _ _), hlater.discardAll]
              refine .stopped 0 rfl (by simp [AllTargets]) rfl ?_
              exact (target_staged machine.disk base file.path).trans htarget
          | ok place =>
              rw [htarget] at hplace
              rw [placeAll, run_bind (run_place_ok machine hplace)]
              exact .cons htarget (ih { machine with
                disk := (machine.disk.discard number).put place (.text file.contents) } hlater)

/-! ## Writing -/

/-- A disk to which the first few of some files have been written.  Besides, only directories have
come into being, for the sake of the files. -/
structure Wrote (files : List File) (count : Nat) (before after : Disk) : Prop where
  regular : after.file? = overlaid before.placeOf before.file? (files.take count)
  kept : ∀ place, before.get? place = some .directory → after.get? place = some .directory
  made : ∀ place, after.get? place = some .directory → before.get? place = some .directory ∨
    before.get? place = none ∧ ∃ path, MadeFor files path ∧ place = before.placeOf path
  staged : after.staged = before.staged
  workingDirectory : after.workingDirectory = before.workingDirectory
  targets : after.AllTargets (files.take count)

/-- How writing files ends: all of them are written; or one of them cannot be moved to its place,
and just those before it are written.  In both cases all had been staged first: their directories
are there as if nothing else had been done.  Or else the directory of a file cannot be made, and no
file is written at all. -/
inductive WritingEnds (files : List File) (before : Disk) :
    Except Failure Unit × Machine → Prop where
  | written {machine : Machine} {ready : Disk} : Prepares before files ready →
      SameDirectories ready machine.disk → Wrote files files.length before machine.disk →
      WritingEnds files before (.ok (), machine)
  | unplaced {machine : Machine} {ready : Disk} (count : Nat) {file : File}
      {reason : Disk.Failure} : Prepares before files ready → SameDirectories ready machine.disk →
      files[count]? = some file → machine.disk.target file.path = .error reason →
      Wrote files count before machine.disk →
      WritingEnds files before (.error (.place file.path reason.message), machine)
  | unstaged {machine : Machine} (count : Nat) {file : File} {reason : Disk.Failure} :
      Unprepared before files count file reason machine.disk →
      Wrote files 0 before machine.disk →
      WritingEnds files before
        (.error (.directory (stagingDirectory file.path) reason.message), machine)

/-- Files that are put at their places after directories have been made are written. -/
theorem Wrote.of_grown {files : List File} {count : Nat} {before grown : Disk}
    {held : List (Nat × String)} (h : Grown (MadeFor files) before grown)
    (htargets : AllTargets { grown with staged := held } (files.take count)) :
    Wrote files count before
      { { grown with staged := held }.overlay (files.take count) with
        staged := before.staged } := by
  have hsame : SameDirectories grown ({ grown with staged := held }.overlay (files.take count)) :=
    (sameDirectories_staged grown held).trans (sameDirectories_overlay htargets)
  have hafter := hsame.trans (sameDirectories_staged _ before.staged)
  have hplaces : grown.placeOf = before.placeOf :=
    funext fun path => placeOf_congr h.workingDirectory path
  refine ⟨?_, fun place hplace => ?_, fun place hplace => ?_, rfl,
    hafter.workingDirectory.trans h.workingDirectory, ?_⟩
  · have hoverlay := file?_overlay htargets
    rw [← h.file?, ← hplaces]
    exact hoverlay
  · refine (hafter.directories place).mpr ?_
    -- what was a directory has not been made anew
    rcases h.get? place with hget | ⟨hnone, -⟩
    · exact hget.trans hplace
    · rw [hnone] at hplace
      cases hplace
  · have hgrown := (hafter.directories place).mp hplace
    rcases h.get? place with hget | ⟨hnone, -, hmade⟩
    · exact Or.inl (hget.symm.trans hgrown)
    · exact Or.inr ⟨hnone, hmade⟩
  · exact htargets.of_sameDirectories
      ((sameDirectories_overlay htargets).trans (sameDirectories_staged _ before.staged))

theorem writingEnds_writeAll (machine : Machine) (files : List File) :
    WritingEnds files machine.disk ((writeAll Machine.system files).run machine) := by
  have hstaging := stagingEnds_stageAll machine files
  rcases hrun : (stageAll Machine.system files).run machine with ⟨failure | staged, later⟩ <;>
    rw [hrun] at hstaging <;> rw [writeAll, run_bind hrun]
  · obtain ⟨count, file, reason, hunprepared, rfl⟩ := hstaging
    have hgrown := hunprepared.grown
    have hnone : later.disk.AllTargets (files.take 0) := by simp [AllTargets]
    have hwrote : Wrote files 0 machine.disk { later.disk with staged := machine.disk.staged } :=
      .of_grown hgrown hnone
    rw [← hgrown.staged] at hwrote
    exact .unstaged count hunprepared hwrote
  · obtain ⟨ready, held, hprepares, hheld, hdisk⟩ := hstaging
    have hplacing : PlacingEnds later.disk machine.disk.staged files
        ((placeAll Machine.system staged).run later) := by
      refine placingEnds_placeAll later ?_
      rw [hdisk]
      exact hheld
    rw [hdisk] at hplacing
    -- placing changes no directory, however far it gets
    have hsame {count : Nat} (h : AllTargets { ready with staged := held } (files.take count)) :
        SameDirectories ready
          { { ready with staged := held }.overlay (files.take count) with
            staged := machine.disk.staged } :=
      ((sameDirectories_staged ready held).trans (sameDirectories_overlay h)).trans
        (sameDirectories_staged _ _)
    show WritingEnds files machine.disk ((placeAll Machine.system staged).run later)
    generalize (placeAll Machine.system staged).run later = ends at hplacing ⊢
    cases hplacing with
    | placed htargets hafter =>
        rw [← files.take_length] at htargets hafter
        refine .written hprepares ?_ ?_ <;> rw [hafter]
        · exact hsame htargets
        · exact .of_grown hprepares.grown htargets
    | stopped count hfile htargets hafter htarget =>
        refine .unplaced count hprepares ?_ hfile htarget ?_ <;> rw [hafter]
        · exact hsame htargets
        · exact .of_grown hprepares.grown htargets

/-! ## Runs -/

/-- How a run ends: without a configuration, or if generating fails, nothing is changed; otherwise
the files are written. -/
inductive RunEnds (options : Options) (before : Machine) :
    Except Failure Unit × Machine → Prop where
  | unconfigured : options.config = none → RunEnds options before (.error .noConfig, before)
  | notGenerated {path : Path} {problem : Problem} : options.config = some path →
      before.disk.generated path = .error problem →
      RunEnds options before (.error (.notGenerated problem), before)
  | generated {path : Path} {files : List File} {ends : Except Failure Unit × Machine} :
      options.config = some path → before.disk.generated path = .ok files →
      WritingEnds (outputs options files) before.disk ends → RunEnds options before ends

theorem runEnds_run (options : Options) (machine : Machine) :
    RunEnds options machine ((run Machine.system options).run machine) := by
  unfold run
  cases hconfig : options.config with
  | none => exact .unconfigured hconfig
  | some path =>
      dsimp only
      rw [run_bind (generate_system machine path)]
      cases hgenerated : machine.disk.generated path with
      | error problem => exact .notGenerated hconfig hgenerated
      | ok files =>
          exact .generated hconfig hgenerated (writingEnds_writeAll
            { machine with printed := machine.printed ++ output options files } _)

/-- Where the directory of some file cannot be made, no file is written. -/
theorem refused_writeAll {machine : Machine} {files : List File} {count : Nat} {file : File}
    {reason : Disk.Failure} {disk : Disk}
    (h : Unprepared machine.disk files count file reason disk) :
    ((writeAll Machine.system files).run machine).1 =
        .error (.directory (stagingDirectory file.path) reason.message) ∧
      ((writeAll Machine.system files).run machine).2.disk = disk ∧
        Wrote files 0 machine.disk disk := by
  have hends := writingEnds_writeAll machine files
  generalize (writeAll Machine.system files).run machine = ends at hends ⊢
  cases hends with
  | written hprepares => exact absurd h hprepares.not_unprepared
  | unplaced count hprepares => exact absurd h hprepares.not_unprepared
  | unstaged count hunprepared hwrote =>
      obtain ⟨rfl, rfl, rfl⟩ := h.unique hunprepared
      exact ⟨rfl, rfl, hwrote⟩

/-- Files are written all or none, but for those behind one that cannot be moved to its place: that
holds of any list of files, and of the files that a run generates.  No file is written in particular
if the directory of any of them cannot be made. -/
theorem writes_allOrNothing :
    (∀ files machine, WritingEnds files machine.disk
      ((writeAll Machine.system files).run machine)) ∧
    (∀ files machine count file reason disk,
      Unprepared machine.disk files count file reason disk →
        ((writeAll Machine.system files).run machine).1 =
            .error (.directory (stagingDirectory file.path) reason.message) ∧
          ((writeAll Machine.system files).run machine).2.disk = disk ∧
            Wrote files 0 machine.disk disk) ∧
    ∀ options machine, RunEnds options machine ((run Machine.system options).run machine) :=
  ⟨fun files machine => writingEnds_writeAll machine files,
    fun _ _ _ _ _ _ => refused_writeAll, runEnds_run⟩

/-- A machine with a file where a directory is asked for. -/
def blockedMachine : Machine where
  printed := ""
  disk.entries := [(["work"], .directory), (["work", "blocked"], .text "taken")]
  disk.staged := []
  disk.workingDirectory := ["work"]

/-- Its disk with one more directory. -/
def grownDisk : Disk := blockedMachine.disk.put ["work", "lib"] .directory

/-- Two files, of which the second one has no directory. -/
def blockedFiles : List File := [⟨⟨"lib/a.js"⟩, "// a\n"⟩, ⟨⟨"blocked/b.js"⟩, "// b\n"⟩]

/-- The directory of the first file is made, and then nothing is written, not even the first
file. -/
theorem writes_allOrNothing_blocked :
    Unprepared blockedMachine.disk blockedFiles 1 ⟨⟨"blocked/b.js"⟩, "// b\n"⟩ .exists grownDisk ∧
    ((writeAll Machine.system blockedFiles).run blockedMachine).1 =
      .error (.directory ⟨"blocked"⟩ "File exists (os error 17)") ∧
    ((writeAll Machine.system blockedFiles).run blockedMachine).2.disk = grownDisk ∧
    Wrote blockedFiles 0 blockedMachine.disk grownDisk ∧
    grownDisk.get? ["work", "lib"] = some .directory ∧
    grownDisk.get? ["work", "lib", "a.js"] = none := by
  have hfirst : Prepares blockedMachine.disk (blockedFiles.take 1) grownDisk :=
    .cons rfl (.nil _)
  have hunprepared : Unprepared blockedMachine.disk blockedFiles 1 ⟨⟨"blocked/b.js"⟩, "// b\n"⟩
      .exists grownDisk := ⟨rfl, grownDisk, hfirst, rfl⟩
  obtain ⟨-, hrefused, -⟩ := writes_allOrNothing
  obtain ⟨herror, hdisk, hwrote⟩ := hrefused _ _ _ _ _ _ hunprepared
  exact ⟨hunprepared, herror, hdisk, hwrote, rfl, rfl⟩

end ValidatorGen.CommandLine
