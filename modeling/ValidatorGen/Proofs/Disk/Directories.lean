import ValidatorGen.Proofs.Disk.Place

/-!
# What making directories changes

Making a directory, and those above it that are missing, puts directories at places where nothing
stood, and changes nothing else.  That holds also if it fails halfway (`grown_ensureDirectories`):
the directories made so far stay.  If it does not fail, the directory is there afterwards
(`isDirectory_of_ensureDirectories`).  The texts that are staged have no part in either
(`ensureDirectories_staged`).

## Strategy

`Grown` is what one new directory does to a disk and what any number of them do, so it is reflexive
and transitive.  `ensureWithin` goes up to the parent of a path before it makes the directory
itself; the induction is on its bound, with the path as a parameter.
-/

namespace ValidatorGen

/-- A path is another one or one of those above it. -/
inductive Path.Above : Path → Path → Prop where
  | self (path : Path) : Above path path
  | parent {above parent path : Path} : path.parent? = some parent → Above above parent →
      Above above path

theorem Path.above_of_eq {above path : Path} (h : above = path) : above.Above path := h ▸ .self path

namespace Disk

variable {disk before middle after : Disk} {path : Path} {paths : Path → Prop}

/-- A disk has got new directories, at the places of some paths, and nothing else. -/
structure Grown (paths : Path → Prop) (before after : Disk) : Prop where
  workingDirectory : after.workingDirectory = before.workingDirectory
  staged : after.staged = before.staged
  get? : ∀ place, after.get? place = before.get? place ∨
    before.get? place = none ∧ after.get? place = some .directory ∧
      ∃ path, paths path ∧ place = before.placeOf path

namespace Grown

theorem refl (paths : Path → Prop) (disk : Disk) : Grown paths disk disk :=
  ⟨rfl, rfl, fun _ => Or.inl rfl⟩

theorem trans (h : Grown paths before middle) (hafter : Grown paths middle after) :
    Grown paths before after := by
  refine ⟨hafter.workingDirectory.trans h.workingDirectory, hafter.staged.trans h.staged, ?_⟩
  intro place
  rcases hafter.get? place with hsame | ⟨hnone, hmade, made, hpath, hplace⟩
  · rcases h.get? place with hsame' | ⟨hnone, hmade, hpath⟩
    · exact Or.inl (hsame.trans hsame')
    · exact Or.inr ⟨hnone, hsame.trans hmade, hpath⟩
  · rw [placeOf_congr h.workingDirectory] at hplace
    rcases h.get? place with hsame | ⟨-, hmade', -⟩
    · exact Or.inr ⟨hsame.symm.trans hnone, hmade, made, hpath, hplace⟩
    · -- a directory that was made in the first step is not missing in the second
      rw [hmade'] at hnone
      cases hnone

theorem mono {others : Path → Prop} (h : Grown paths before after)
    (hpaths : ∀ path, paths path → others path) : Grown others before after := by
  refine ⟨h.workingDirectory, h.staged, fun place => ?_⟩
  rcases h.get? place with hsame | ⟨hnone, hmade, made, hpath, hplace⟩
  · exact Or.inl hsame
  · exact Or.inr ⟨hnone, hmade, made, hpaths made hpath, hplace⟩

/-- The directories that were there stay. -/
theorem directory {place : List String} (h : Grown paths before after)
    (hplace : before.get? place = some .directory) : after.get? place = some .directory := by
  rcases h.get? place with hsame | ⟨hnone, -⟩
  · exact hsame.trans hplace
  · rw [hnone] at hplace
    cases hplace

/-- Texts that are staged meanwhile make no difference. -/
theorem unstaged {staged : List (Nat × String)}
    (h : Grown paths { before with staged := staged } after) :
    Grown paths before { after with staged := before.staged } :=
  ⟨h.workingDirectory, rfl, h.get?⟩

end Grown

/-- The root is there on every disk. -/
theorem ne_nil_of_get?_eq_none {place : List String} (h : disk.get? place = none) : place ≠ [] := by
  rintro rfl
  cases h

theorem makeDirectory_eq (disk : Disk) (path : Path) : disk.makeDirectory path =
    if path.text = "" then .error .notFound
    else disk.follow (disk.startOf path) (partsOf path) >>= fun place =>
      match disk.get? place with
      | some _ => .error .exists
      | none => .ok (disk.put place .directory) := by
  unfold makeDirectory
  split <;> rfl

theorem makeDirectory_eq_ok_iff : disk.makeDirectory path = .ok after ↔ path.text ≠ "" ∧
    disk.follow (disk.startOf path) (partsOf path) = .ok (disk.placeOf path) ∧
    disk.get? (disk.placeOf path) = none ∧ after = disk.put (disk.placeOf path) .directory := by
  unfold makeDirectory
  rw [unless_throw_eq_ok_iff, bind_eq_ok_iff]
  refine and_congr_right fun _ => ⟨?_, ?_⟩
  · rintro ⟨place, hfollow, h⟩
    obtain rfl : place = disk.placeOf path := eq_foldl_of_follow hfollow
    split at h
    · cases h
    · next hnone => exact ⟨hfollow, hnone, (Except.ok.inj h).symm⟩
  · rintro ⟨hfollow, hnone, rfl⟩
    refine ⟨disk.placeOf path, hfollow, ?_⟩
    rw [hnone]
    rfl

theorem grown_makeDirectory (h : disk.makeDirectory path = .ok after) :
    Grown (· = path) disk after := by
  obtain ⟨-, -, hnone, rfl⟩ := makeDirectory_eq_ok_iff.mp h
  refine ⟨rfl, rfl, fun other => ?_⟩
  rw [get?_put (ne_nil_of_get?_eq_none hnone)]
  by_cases hother : other = disk.placeOf path
  · subst hother
    exact Or.inr ⟨hnone, if_pos rfl, path, rfl, rfl⟩
  · exact Or.inl (if_neg hother)

theorem grown_ensureDirectory (disk : Disk) (path : Path) :
    Grown (· = path) disk (disk.ensureDirectory path).1 := by
  unfold ensureDirectory
  split
  · next after hmade => exact grown_makeDirectory hmade
  · exact .refl _ disk

theorem grown_ensureWithin (disk : Disk) (path : Path) (levels : Nat) :
    Grown (Path.Above · path) disk (disk.ensureWithin path levels).1 := by
  induction levels generalizing disk path with
  | zero => exact (grown_ensureDirectory disk path).mono fun _ => Path.above_of_eq
  | succ levels ih =>
      -- the path is empty, is made at once, is made after its parent, or cannot be made
      unfold ensureWithin
      split
      · exact .refl _ disk
      · split
        · next after hmade => exact (grown_makeDirectory hmade).mono fun _ => Path.above_of_eq
        · split
          · exact .refl _ disk
          · next parent hparent =>
              have habove : Grown (Path.Above · path) disk (disk.ensureWithin parent levels).1 :=
                (ih disk parent).mono fun _ => .parent hparent
              split
              · next after failure hfailed =>
                  rw [hfailed] at habove
                  exact habove
              · next after hensured =>
                  rw [hensured] at habove
                  exact habove.trans
                    ((grown_ensureDirectory after path).mono fun _ => Path.above_of_eq)
        · exact .refl _ disk

theorem grown_ensureDirectories (disk : Disk) (path : Path) :
    Grown (Path.Above · path) disk (disk.ensureDirectories path).1 :=
  grown_ensureWithin disk path path.text.length

/-! ## The directory is there -/

theorem isDirectory_of_follow (htext : path.text ≠ "")
    (hfollow : disk.follow (disk.startOf path) (partsOf path) = .ok (disk.placeOf path))
    (hplace : disk.get? (disk.placeOf path) = some .directory) : disk.isDirectory path = true := by
  have hfind : disk.find path = .ok (disk.placeOf path, some .directory) := by
    unfold find
    rw [unless_throw_eq_ok_iff, bind_eq_ok_iff]
    refine ⟨htext, _, hfollow, ?_⟩
    -- a separator at the end is followed by nothing but the directory itself
    simp only [enter, hplace]
    split <;> rfl
  rw [isDirectory, hfind]

theorem isDirectory_of_makeDirectory (h : disk.makeDirectory path = .ok after) :
    after.isDirectory path = true := by
  have hgrown := grown_makeDirectory h
  obtain ⟨htext, hfollow, hnone, hafter⟩ := makeDirectory_eq_ok_iff.mp h
  have hplace : after.placeOf path = disk.placeOf path :=
    placeOf_congr hgrown.workingDirectory path
  refine isDirectory_of_follow htext ?_ ?_
  · rw [hplace, startOf_congr hgrown.workingDirectory]
    exact follow_of_directories (fun _ => hgrown.directory) hfollow
  · rw [hplace, hafter, get?_put (ne_nil_of_get?_eq_none hnone), if_pos rfl]

theorem isDirectory_of_ensureDirectory (h : disk.ensureDirectory path = (after, .ok ())) :
    after.isDirectory path = true := by
  unfold ensureDirectory at h
  split at h
  · next hmade =>
      obtain ⟨rfl, -⟩ := Prod.mk.inj h
      exact isDirectory_of_makeDirectory hmade
  · split at h
    · next hthere =>
        obtain ⟨rfl, -⟩ := Prod.mk.inj h
        exact hthere
    · cases h

/-- Directories that could be made, or did not have to be, are there. -/
theorem isDirectory_of_ensureDirectories (htext : path.text ≠ "")
    (h : disk.ensureDirectories path = (after, .ok ())) : after.isDirectory path = true := by
  unfold ensureDirectories at h
  -- the directories above play no part, since the last step is made for the path itself
  cases hlevels : path.text.length with
  | zero =>
      rw [hlevels] at h
      exact isDirectory_of_ensureDirectory h
  | succ levels =>
      rw [hlevels, ensureWithin, if_neg htext] at h
      split at h
      · next hmade =>
          obtain ⟨rfl, -⟩ := Prod.mk.inj h
          exact isDirectory_of_makeDirectory hmade
      · split at h
        · cases h
        · split at h
          · cases h
          · exact isDirectory_of_ensureDirectory h
      · split at h
        · next hthere =>
            obtain ⟨rfl, -⟩ := Prod.mk.inj h
            exact hthere
        · cases h

/-! ## Staged texts -/

section

variable (disk : Disk) (staged : List (Nat × String)) (path : Path)

theorem isDirectory_staged :
    { disk with staged := staged }.isDirectory path = disk.isDirectory path := by
  unfold isDirectory find
  simp only [follow_staged]
  rfl

theorem makeDirectory_staged : { disk with staged := staged }.makeDirectory path =
    (disk.makeDirectory path).map fun after => { after with staged := staged } := by
  rw [makeDirectory_eq, makeDirectory_eq, follow_staged]
  split
  · rfl
  · show (disk.follow (disk.startOf path) (partsOf path) >>= fun place =>
      match disk.get? place with
      | some _ => .error .exists
      | none => .ok { disk.put place .directory with staged := staged }) = _
    cases disk.follow (disk.startOf path) (partsOf path) with
    | error failure => rfl
    | ok place =>
        dsimp only [bind, Except.bind]
        cases disk.get? place <;> rfl

theorem ensureDirectory_staged : { disk with staged := staged }.ensureDirectory path =
    ({ (disk.ensureDirectory path).1 with staged := staged }, (disk.ensureDirectory path).2) := by
  unfold ensureDirectory
  rw [makeDirectory_staged, isDirectory_staged]
  cases disk.makeDirectory path <;> rfl

theorem ensureWithin_staged (levels : Nat) :
    { disk with staged := staged }.ensureWithin path levels =
      ({ (disk.ensureWithin path levels).1 with staged := staged },
        (disk.ensureWithin path levels).2) := by
  induction levels generalizing disk path with
  | zero => exact ensureDirectory_staged disk staged path
  | succ levels ih =>
      unfold ensureWithin
      rw [makeDirectory_staged, isDirectory_staged]
      split
      · rfl
      · cases disk.makeDirectory path with
        | ok after => rfl
        | error failure =>
            cases failure with
            | notFound =>
                -- the directories above come first
                dsimp only [Except.map]
                cases path.parent? with
                | none => rfl
                | some parent =>
                    dsimp only
                    rw [ih]
                    rcases disk.ensureWithin parent levels with ⟨after, failure | ⟨⟩⟩
                    · rfl
                    · exact ensureDirectory_staged after staged path
            | _ => rfl

/-- Making directories neither looks at the texts that are staged nor changes them. -/
theorem ensureDirectories_staged : { disk with staged := staged }.ensureDirectories path =
    ({ (disk.ensureDirectories path).1 with staged := staged },
      (disk.ensureDirectories path).2) :=
  ensureWithin_staged disk staged path path.text.length

end

end Disk

end ValidatorGen
