import ValidatorGen.Proofs.Path.Walk

/-!
# The way from a directory to a target

`relativeTo` leaves out what a target and a directory have in common at their beginning, goes up
from what remains of the directory and down along what remains of the target.  `relativeTo_eq` says
so for any beginning that they share.  Between places below the root the way is a walk (`wayTo`),
and `names_followed_wayTo` says that it leads to the target.
-/

namespace ValidatorGen.Path

/-! ## Common beginnings -/

theorem commonLength_append (shared a b : List Component) :
    commonLength (shared ++ a) (shared ++ b) = shared.length + commonLength a b := by
  induction shared with
  | nil => simp
  | cons component rest ih =>
      rw [List.cons_append, List.cons_append, commonLength, if_pos rfl, ih, List.length_cons]
      omega

theorem take_commonLength (a b : List Component) :
    a.take (commonLength a b) = b.take (commonLength a b) := by
  fun_induction commonLength a b with
  | case1 component as bs ih => simp [ih]
  | case2 => rfl
  | case3 => rfl

theorem commonLength_le (a b : List Component) : commonLength a b ≤ b.length := by
  fun_induction commonLength a b with
  | case1 component as bs ih => simpa using ih
  | case2 => exact Nat.zero_le _
  | case3 => exact Nat.zero_le _

theorem commonLength_eq_zero {a b : List Component} (h : ∀ c ∈ a.head?, c ∉ b.head?) :
    commonLength a b = 0 := by
  unfold commonLength
  split
  · next c as d bs =>
      have hne : c ≠ d := by simpa [eq_comm] using h c rfl
      rw [if_neg hne]
  · rfl

/-- What two paths share at their beginning does not matter for the way between them. -/
theorem relativeTo_eq {target directory : Path} {shared goal start : List Component}
    (htarget : target.components = shared ++ goal)
    (hdirectory : directory.components = shared ++ start) (hroot : .root ∉ goal) :
    target.relativeTo directory = ofComponents
      (List.replicate (start.length - commonLength goal start) .up ++
        goal.drop (commonLength goal start)) := by
  have hlength : (shared ++ start).length - (shared.length + commonLength goal start) =
      start.length - commonLength goal start := by
    rw [List.length_append]
    omega
  have hdrop : (shared ++ goal).drop (shared.length + commonLength goal start) =
      goal.drop (commonLength goal start) := by
    rw [← List.drop_drop, List.drop_left]
  unfold relativeTo
  simp only [htarget, hdirectory, commonLength_append, hlength, hdrop]
  split
  · next rest hrest =>
      -- the root does not stand within the goal
      have hmem : Component.root ∈ goal.drop (commonLength goal start) := by
        rw [hrest]
        exact List.mem_cons_self
      exact absurd (List.mem_of_mem_drop hmem) hroot
  · rfl

/-! ## Below the root -/

theorem root_notMem_names (names : List String) :
    Component.root ∉ names.map Component.normal := by
  simp

variable {target directory : Path} {goal start : List String}

/-- The way between two places below the root, as a walk. -/
def wayTo (goal start : List String) : Walk :=
  let common := commonLength (goal.map .normal) (start.map .normal)
  ⟨start.length - common, goal.drop common⟩

theorem relativeTo_of_root (htarget : target.components = .root :: goal.map .normal)
    (hdirectory : directory.components = .root :: start.map .normal) :
    target.relativeTo directory = ofComponents (wayTo goal start).components := by
  have hway := relativeTo_eq (List.singleton_append ▸ htarget) (List.singleton_append ▸ hdirectory)
    (root_notMem_names goal)
  rw [hway]
  simp [wayTo, Walk.components]

/-- Going the way from the start arrives at the goal. -/
theorem names_followed_wayTo (goal start : List String) :
    ((Walk.mk 0 start).followed (wayTo goal start)).names = goal := by
  have hle := commonLength_le (goal.map .normal) (start.map .normal)
  have htake := take_commonLength (goal.map .normal) (start.map .normal)
  rw [List.length_map] at hle
  rw [← List.map_take, ← List.map_take] at htake
  have hshared := List.map_inj_right (fun _ _ => Component.normal.inj) |>.mp htake
  simp only [Walk.followed, wayTo]
  generalize commonLength (goal.map .normal) (start.map .normal) = common at hle hshared
  have hback : start.length - (start.length - common) = common := by omega
  calc start.take (start.length - (start.length - common)) ++ goal.drop common
      = goal.take common ++ goal.drop common := by rw [hback, hshared]
    _ = goal := List.take_append_drop common goal

end ValidatorGen.Path
