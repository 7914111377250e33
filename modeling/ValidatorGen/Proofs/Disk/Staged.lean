import ValidatorGen.Module.Basic
import ValidatorGen.Proofs.Disk.Place

/-!
# Staged texts

A text is staged under a number that no other staged text has.  `Held` is what staging one file
after the other makes of the staged texts: those of the files, each under its number, before those
that were there.  Nothing that is staged is lost or mistaken for another: each number leads to the
text of its file (`Held.lookup`), taking one away leaves the others (`Held.discard`), and once all
of them are taken away the texts are left that were there at first (`Held.discardAll`).
-/

namespace ValidatorGen.Disk

theorem le_foldl_max (numbers : List Nat) (first : Nat) :
    first ≤ numbers.foldl max first ∧ ∀ number ∈ numbers, number ≤ numbers.foldl max first := by
  induction numbers generalizing first with
  | nil => exact ⟨Nat.le_refl _, by simp⟩
  | cons next numbers ih =>
      obtain ⟨hfirst, hnumbers⟩ := ih (max first next)
      rw [List.foldl_cons]
      refine ⟨Nat.le_trans (Nat.le_max_left _ _) hfirst, List.forall_mem_cons.mpr ⟨?_, hnumbers⟩⟩
      exact Nat.le_trans (Nat.le_max_right _ _) hfirst

/-- Nothing is staged under the number for the next text. -/
theorem freshNumber_notMem (disk : Disk) : disk.freshNumber ∉ disk.staged.map Prod.fst := by
  intro hmem
  have hle := (le_foldl_max (disk.staged.map Prod.fst) 0).2 _ hmem
  unfold freshNumber at hle
  omega

/-- Numbers under which nothing is staged can be given up. -/
theorem filter_eq_self {staged : List (Nat × String)} {number : Nat}
    (h : number ∉ staged.map Prod.fst) : staged.filter (·.1 ≠ number) = staged := by
  refine List.filter_eq_self.mpr fun entry hentry => ?_
  rw [decide_eq_true_eq]
  rintro rfl
  exact h (List.mem_map_of_mem hentry)

/-- The text that was staged last can be given up. -/
theorem filter_cons_self {staged : List (Nat × String)} {number : Nat} {contents : String}
    (h : number ∉ staged.map Prod.fst) :
    ((number, contents) :: staged).filter (·.1 ≠ number) = staged := by
  rw [List.filter_cons_of_neg (by simp), filter_eq_self h]

/-- Staged texts as they are after the texts of files have been staged, one after the other, on top
of others. -/
inductive Held : List (Nat × String) → List File → List (Path × Nat) → List (Nat × String) →
    Prop where
  | nil (base : List (Nat × String)) : Held base [] [] base
  | cons {base : List (Nat × String)} {file : File} {files : List File} {number : Nat}
      {staged : List (Path × Nat)} {held : List (Nat × String)} : number ∉ base.map Prod.fst →
      Held ((number, file.contents) :: base) files staged held →
      Held base (file :: files) ((file.path, number) :: staged) held

namespace Held

variable {base held : List (Nat × String)} {file : File} {files : List File} {number : Nat}
  {staged : List (Path × Nat)}

/-- The number of a text below is not given to another text. -/
theorem number_ne (h : Held base files staged held) (hnumber : number ∈ base.map Prod.fst) :
    ∀ entry ∈ staged, entry.2 ≠ number := by
  induction h with
  | nil base => simp
  | cons hnew _ ih =>
      refine List.forall_mem_cons.mpr ⟨?_, ih (List.mem_cons_of_mem _ hnumber)⟩
      rintro rfl
      exact hnew hnumber

theorem lookup_eq (h : Held base files staged held)
    (hnumber : ∀ entry ∈ staged, entry.2 ≠ number) : held.lookup number = base.lookup number := by
  induction h with
  | nil base => rfl
  | cons _ _ ih =>
      rw [List.forall_mem_cons] at hnumber
      rw [ih hnumber.2, List.lookup_cons, beq_eq_false_iff_ne.mpr hnumber.1.symm]

/-- The number of a file leads to its text. -/
theorem lookup (h : Held ((number, file.contents) :: base) files staged held) :
    held.lookup number = some file.contents := by
  have hdistinct := h.number_ne List.mem_cons_self
  rw [h.lookup_eq hdistinct, List.lookup_cons, beq_self_eq_true]

theorem filter (h : Held base files staged held) (hnumber : ∀ entry ∈ staged, entry.2 ≠ number) :
    Held (base.filter (·.1 ≠ number)) files staged (held.filter (·.1 ≠ number)) := by
  induction h with
  | nil base => exact .nil _
  | @cons base file files other staged held hnew _ ih =>
      rw [List.forall_mem_cons] at hnumber
      refine .cons (fun hmem => hnew ?_) ?_
      · obtain ⟨entry, hentry, heq⟩ := List.mem_map.mp hmem
        exact List.mem_map.mpr ⟨entry, (List.mem_filter.mp hentry).1, heq⟩
      · have hrest := ih hnumber.2
        rwa [List.filter_cons_of_pos (by simpa using hnumber.1)] at hrest

/-- Taking the first text away leaves those after it. -/
theorem discard (hnew : number ∉ base.map Prod.fst)
    (h : Held ((number, file.contents) :: base) files staged held) :
    Held base files staged (held.filter (·.1 ≠ number)) := by
  have hrest := h.filter (h.number_ne List.mem_cons_self)
  rwa [filter_cons_self hnew] at hrest

/-- Taking all texts away leaves those that were there at first. -/
theorem discardAll {disk : Disk} (h : Held base files staged disk.staged) :
    staged.foldl (fun disk entry => disk.discard entry.2) disk = { disk with staged := base } := by
  generalize hheld : disk.staged = held at h
  induction staged generalizing base files disk held with
  | nil =>
      cases h with
      | nil =>
          rw [← hheld]
          rfl
  -- the induction is on what was staged, and a number given up leaves the texts above it
  | cons entry staged ih =>
      cases h with
      | cons hnew hrest =>
          have hlater := hrest.discard hnew
          rw [← hheld] at hlater
          rw [List.foldl_cons, ih _ rfl hlater]
          rfl

end Held

end ValidatorGen.Disk
