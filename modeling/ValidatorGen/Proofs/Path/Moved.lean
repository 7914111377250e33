import ValidatorGen.Proofs.Path.Relative

/-!
# Places seen from another directory

A walk may start anywhere, while a path below the root is written from the root.  Behind the names
of a directory, a walk goes back over the last of them and down from there (`below`).  The way
between two places depends on that directory in two cases.

* The goal lies further up than the start and is reached by coming back down to the directory.  Seen
  from the directory alone, the name to come down to is unknown, and both the level up and the name
  stay in the way; seen from the root, they cancel.  Either way leads to the goal.
* The start lies further up than the goal.  Seen from the directory alone, the levels that lead up
  to the start are taken for names to go back over, so the way leads further up still and misses the
  goal; seen from the root, it leads down along the names of the directory.

`Aside` rules both cases out, and `relativeTo_eq_of_aside` and `samePlace_eq_of_aside` say that
nothing else makes a difference.  In both cases the way differs in the levels that it leads up
(`exists_way_of_not_aside`), so `Aside` rules out no more than that.
-/

namespace ValidatorGen.Path

variable {above : List String} {start goal : Walk}

/-- Where a walk leads from a directory below the root. -/
def below (above : List String) (walk : Walk) : List String :=
  above.take (above.length - walk.ups) ++ walk.names

/-- The names of the directory between the levels of two walks. -/
def between (above : List String) (start goal : Walk) : List String :=
  (above.take (above.length - start.ups)).drop (above.length - goal.ups)

/-- The goal lies as far up as the start, or further up, but not below the name that the last level
up has left.  It does not lie less far up. -/
def Aside (above : List String) (start goal : Walk) : Prop :=
  start.ups = goal.ups ∨
    start.ups < goal.ups ∧ goal.names.head? ≠ above[above.length - goal.ups]?

instance : Decidable (Aside above start goal) := inferInstanceAs (Decidable (_ ∨ _))

theorem below_parent {walk : Walk} (hnames : walk.names ≠ []) :
    below above walk.parent = (below above walk).dropLast := by
  rw [below, below, List.dropLast_append_of_ne_nil hnames]
  rfl

/-- Only the level of the start counts. -/
theorem Aside.parent (h : Aside above start goal) : Aside above start.parent goal := h

theorem below_eq (hlt : start.ups < goal.ups) :
    below above start =
      above.take (above.length - goal.ups) ++ (between above start goal ++ start.names) := by
  have htake : (above.take (above.length - start.ups)).take (above.length - goal.ups) =
      above.take (above.length - goal.ups) := by
    rw [List.take_take, Nat.min_eq_left (by omega)]
  rw [below, between, ← List.append_assoc, ← htake, List.take_append_drop]

/-- The first name between the levels is the one that the last level up has left. -/
theorem head?_between (hlt : start.ups < goal.ups) (hgoal : goal.ups ≤ above.length) :
    (between above start goal ++ start.names).head? = above[above.length - goal.ups]? := by
  have hlast : (above.take (above.length - start.ups))[above.length - goal.ups]? =
      above[above.length - goal.ups]? := List.getElem?_take_of_lt (by omega)
  have hleft : above.length - goal.ups < above.length := by omega
  have hsome : above[above.length - goal.ups]? = some above[above.length - goal.ups] :=
    List.getElem?_eq_getElem hleft
  rw [between, List.head?_append, List.head?_drop, hlast, hsome]
  rfl

theorem length_between (hlt : start.ups < goal.ups) (hgoal : goal.ups ≤ above.length) :
    (between above start goal).length = goal.ups - start.ups := by
  rw [between, List.length_drop, List.length_take]
  omega

/-- The levels that the goal lies further up. -/
theorem components_eq_append (h : start.ups ≤ goal.ups) :
    goal.components = List.replicate start.ups .up ++
      (List.replicate (goal.ups - start.ups) .up ++ goal.names.map .normal) := by
  rw [Walk.components, ← List.append_assoc, List.replicate_append_replicate,
    Nat.add_sub_cancel' h]

/-! ## The way -/

variable {target directory module target' directory' module' : Path}

/-- The way to a goal that lies further up. -/
theorem relativeTo_of_lt (hlt : start.ups < goal.ups)
    (htarget : target.components = goal.components)
    (hdirectory : directory.components = start.components) :
    target.relativeTo directory = ofComponents (List.replicate (start.names.length +
      (goal.ups - start.ups)) .up ++ goal.names.map .normal) := by
  rw [components_eq_append (Nat.le_of_lt hlt)] at htarget
  rw [Walk.components] at hdirectory
  have hcommon : commonLength
      (List.replicate (goal.ups - start.ups) .up ++ goal.names.map .normal)
      (start.names.map .normal) = 0 := by
    apply commonLength_eq_zero
    obtain ⟨count, hcount⟩ : ∃ count, goal.ups - start.ups = count + 1 :=
      ⟨goal.ups - start.ups - 1, by omega⟩
    rw [hcount, List.replicate_succ]
    cases start.names <;> simp
  rw [relativeTo_eq htarget hdirectory (by simp), hcommon, List.length_map, Nat.sub_zero,
    List.drop_zero, ← List.append_assoc, List.replicate_append_replicate]

theorem relativeTo_below_of_lt (hlt : start.ups < goal.ups) (hgoal : goal.ups ≤ above.length)
    (hhead : goal.names.head? ≠ above[above.length - goal.ups]?)
    (htarget : target.components = .root :: (below above goal).map .normal)
    (hdirectory : directory.components = .root :: (below above start).map .normal) :
    target.relativeTo directory = ofComponents (List.replicate (start.names.length +
      (goal.ups - start.ups)) .up ++ goal.names.map .normal) := by
  rw [below, List.map_append, ← List.cons_append] at htarget
  rw [below_eq hlt, List.map_append, ← List.cons_append] at hdirectory
  have hcommon : commonLength (goal.names.map Component.normal)
      ((between above start goal ++ start.names).map .normal) = 0 := by
    apply commonLength_eq_zero
    rw [List.head?_map, List.head?_map, head?_between hlt hgoal]
    intro component hfirst hlast
    obtain ⟨name, hname, rfl⟩ := Option.map_eq_some_iff.mp hfirst
    obtain ⟨left, hleft, heq⟩ := Option.map_eq_some_iff.mp hlast
    rw [Component.normal.inj heq] at hleft
    exact hhead (hname.trans hleft.symm)
  rw [relativeTo_eq htarget hdirectory (by simp), hcommon, List.length_map, List.length_append,
    length_between hlt hgoal, Nat.sub_zero, List.drop_zero, Nat.add_comm]

/-- The way between two places does not depend on the directory that they are seen from. -/
theorem relativeTo_eq_of_aside (haside : Aside above start goal) (hgoal : goal.ups ≤ above.length)
    (htarget : target.components = goal.components)
    (hdirectory : directory.components = start.components)
    (htarget' : target'.components = .root :: (below above goal).map .normal)
    (hdirectory' : directory'.components = .root :: (below above start).map .normal) :
    target'.relativeTo directory' = target.relativeTo directory := by
  rcases haside with heq | ⟨hlt, hhead⟩
  · rw [Walk.components, ← heq] at htarget
    rw [Walk.components] at hdirectory
    rw [below, List.map_append, ← List.cons_append, ← heq] at htarget'
    rw [below, List.map_append, ← List.cons_append] at hdirectory'
    rw [relativeTo_eq htarget' hdirectory' (by simp), relativeTo_eq htarget hdirectory (by simp)]
  · rw [relativeTo_below_of_lt hlt hgoal hhead htarget' hdirectory',
      relativeTo_of_lt hlt htarget hdirectory]

/-- Two walks that lead to one place below the root are the same walk. -/
theorem below_inj_of_aside (haside : Aside above start goal) (hgoal : goal.ups ≤ above.length) :
    below above goal = below above start ↔ goal = start := by
  constructor
  · intro heq
    rcases haside with hups | ⟨hlt, hhead⟩
    · rw [below, below, ← hups, List.append_cancel_left_eq] at heq
      cases goal
      cases start
      simp_all
    · -- behind what both places share, the goal would have to go on with the name that was left
      rw [below_eq hlt, below, List.append_cancel_left_eq] at heq
      rw [heq, head?_between hlt hgoal] at hhead
      exact absurd rfl hhead
  · rintro rfl
    rfl

/-- Whether two places are the same does not depend on it, either. -/
theorem samePlace_eq_of_aside (haside : Aside above start goal) (hgoal : goal.ups ≤ above.length)
    (htarget : target.components = goal.components)
    (hmodule : module.components = start.components)
    (htarget' : target'.components = .root :: (below above goal).map .normal)
    (hmodule' : module'.components = .root :: (below above start).map .normal) :
    target'.samePlace module' = target.samePlace module := by
  have hwalks : goal.components = start.components ↔ goal = start :=
    ⟨Walk.components_injective, congrArg Walk.components⟩
  rw [samePlace, samePlace, decide_eq_decide, htarget, hmodule, htarget', hmodule', hwalks,
    List.cons.injEq, and_iff_right rfl, List.map_inj_right fun _ _ => Component.normal.inj,
    below_inj_of_aside haside hgoal]

/-! ## Two ways -/

/-- The way to a goal that lies less far up.  The levels of the start are gone back over as if they
were names. -/
theorem relativeTo_of_gt (hgt : goal.ups < start.ups)
    (htarget : target.components = goal.components)
    (hdirectory : directory.components = start.components) :
    target.relativeTo directory = ofComponents (List.replicate (start.names.length +
      (start.ups - goal.ups)) .up ++ goal.names.map .normal) := by
  rw [Walk.components] at htarget
  rw [components_eq_append (Nat.le_of_lt hgt)] at hdirectory
  have hcommon : commonLength (goal.names.map Component.normal)
      (List.replicate (start.ups - goal.ups) .up ++ start.names.map .normal) = 0 := by
    apply commonLength_eq_zero
    obtain ⟨count, hcount⟩ : ∃ count, start.ups - goal.ups = count + 1 :=
      ⟨start.ups - goal.ups - 1, by omega⟩
    rw [hcount, List.replicate_succ]
    cases goal.names <;> simp
  rw [relativeTo_eq htarget hdirectory (root_notMem_names _), hcommon, List.length_append,
    List.length_replicate, List.length_map, Nat.sub_zero, List.drop_zero, Nat.add_comm]

/-- What both places share does not matter for how far up the way leads. -/
theorem ups_wayTo_append (shared goal start : List String) :
    (wayTo (shared ++ goal) (shared ++ start)).ups = (wayTo goal start).ups := by
  simp only [wayTo, List.map_append, commonLength_append, List.length_append, List.length_map]
  omega

theorem ups_wayTo_le (goal start : List String) : (wayTo goal start).ups ≤ start.length :=
  Nat.sub_le _ _

/-- Seen from the root, the way leads up less far than it does seen from the directory alone, unless
the goal lies aside. -/
theorem exists_way_of_not_aside (h : ¬Aside above start goal) (hgoal : goal.ups ≤ above.length)
    (htarget : target.components = goal.components)
    (hdirectory : directory.components = start.components) :
    ∃ way : Walk, target.relativeTo directory = ofComponents way.components ∧
      way.names = goal.names ∧ (wayTo (below above goal) (below above start)).ups < way.ups := by
  obtain ⟨hne, hdown⟩ := not_or.mp h
  rcases Nat.lt_or_gt_of_ne hne with hlt | hgt
  · refine ⟨⟨start.names.length + (goal.ups - start.ups), goal.names⟩,
      relativeTo_of_lt hlt htarget hdirectory, rfl, ?_⟩
    -- the name to come down to is shared behind the levels of the goal
    have hback : goal.names.head? = above[above.length - goal.ups]? :=
      Decidable.of_not_not fun hhead => hdown ⟨hlt, hhead⟩
    have hlength : (between above start goal ++ start.names).length =
        goal.ups - start.ups + start.names.length := by
      rw [List.length_append, length_between hlt hgoal]
    have hhead := head?_between hlt hgoal
    rw [← hback] at hhead
    rw [below_eq hlt, below, ups_wayTo_append]
    cases hstart : between above start goal ++ start.names with
    | nil =>
        rw [hstart, List.length_nil] at hlength
        omega
    | cons name rest =>
        rw [hstart, List.head?_cons] at hhead
        obtain ⟨down, hnames⟩ := List.head?_eq_some_iff.mp hhead.symm
        rw [hstart, List.length_cons] at hlength
        have hshared : (wayTo (name :: down) (name :: rest)).ups = (wayTo down rest).ups :=
          ups_wayTo_append [name] down rest
        have hle := ups_wayTo_le down rest
        rw [hnames, hshared]
        dsimp only
        omega
  · refine ⟨⟨start.names.length + (start.ups - goal.ups), goal.names⟩,
      relativeTo_of_gt hgt htarget hdirectory, rfl, ?_⟩
    rw [below_eq hgt, below, ups_wayTo_append]
    have hle := ups_wayTo_le (between above goal start ++ goal.names) start.names
    dsimp only
    omega

end ValidatorGen.Path
