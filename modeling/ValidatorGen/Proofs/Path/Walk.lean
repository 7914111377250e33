import ValidatorGen.Proofs.Path.Components

/-!
# Where a path leads

A path is walked step by step: a name leads down, and `..` takes back the last name, or leads one
level up where there is no name to take back.  A `Walk` is what has come of it: so many levels up,
and then down along names.  Walks follow one another (`walk_join`), and the normal form of a path is
its walk written as components (`components_normalize`); behind the root, levels up lead nowhere
(`components_normalize_of_isAbsolute`).

## Strategy

`fold` keeps a stack of components, and a walk is what the stack looks like.  So one lemma for each
of the two kinds of stacks says what a single step does (`push_components`, `push_root_names`), and
the lemmas on whole paths follow by induction on the steps.
-/

namespace ValidatorGen.Path

/-- Where steps lead: some levels up, and then down along names. -/
structure Walk where
  ups : Nat
  names : List String
  deriving DecidableEq, Repr

namespace Walk

/-- The walk that stays where it starts. -/
def start : Walk := ⟨0, []⟩

/-- The walk with one component behind it. -/
def next (walk : Walk) : Component → Walk
  | .up => if walk.names = [] then ⟨walk.ups + 1, []⟩ else ⟨walk.ups, walk.names.dropLast⟩
  | .normal name => ⟨walk.ups, walk.names ++ [name]⟩
  | _ => walk

/-- One walk and then another. -/
def followed (walk after : Walk) : Walk where
  ups := walk.ups + (after.ups - walk.names.length)
  names := walk.names.take (walk.names.length - after.ups) ++ after.names

/-- The walk without its last name. -/
def parent (walk : Walk) : Walk := ⟨walk.ups, walk.names.dropLast⟩

/-- The components of a walk. -/
def components (walk : Walk) : List Component :=
  List.replicate walk.ups .up ++ walk.names.map .normal

@[simp] theorem followed_start (walk : Walk) : walk.followed start = walk := by
  simp [followed, start]

theorem followed_next (walk after : Walk) (component : Component) :
    walk.followed (after.next component) = (walk.followed after).next component := by
  cases component with
  | normal name => simp [followed, next]
  | up =>
      by_cases hafter : after.names = []
      · by_cases hleft : walk.names.length ≤ after.ups
        · -- nothing is left to be taken back
          have hnone : walk.names.length - after.ups = 0 := by omega
          have hnone' : walk.names.length - (after.ups + 1) = 0 := by omega
          simp only [next, hafter, if_true, followed, hnone, hnone', List.take_zero,
            List.append_nil, Walk.mk.injEq, and_true]
          omega
        · -- the last name that is left is taken back
          have hsome : walk.names.take (walk.names.length - after.ups) ≠ [] := by
            rw [ne_eq, List.take_eq_nil_iff, not_or, ← List.length_eq_zero_iff]
            omega
          have hups : after.ups + 1 - walk.names.length = after.ups - walk.names.length := by omega
          have htake : walk.names.length - (after.ups + 1) =
              walk.names.length - after.ups - 1 := by omega
          simp only [next, hafter, if_true, followed, List.append_nil, if_neg hsome, hups, htake,
            Walk.mk.injEq, true_and]
          rw [List.dropLast_eq_take, List.take_take, List.length_take]
          congr 1
          omega
      · simp [followed, next, hafter, List.dropLast_append_of_ne_nil]
  | _ => rfl

/-- Walking on behind another walk. -/
theorem foldl_next (walk after : Walk) (components : List Component) :
    components.foldl next (walk.followed after) =
      walk.followed (components.foldl next after) := by
  induction components generalizing after with
  | nil => rfl
  | cons component rest ih =>
      rw [List.foldl_cons, List.foldl_cons, ← followed_next]
      exact ih _

/-- A walk written as components leads where it leads. -/
theorem foldl_next_components (walk : Walk) : walk.components.foldl next start = walk := by
  have hups (count : Nat) : (List.replicate count Component.up).foldl next start = ⟨count, []⟩ := by
    induction count with
    | zero => rfl
    | succ count ih =>
        rw [List.replicate_succ', List.foldl_append, ih]
        rfl
  have hnames (names : List String) (ups : Nat) (before : List String) :
      (names.map Component.normal).foldl next ⟨ups, before⟩ = ⟨ups, before ++ names⟩ := by
    induction names generalizing before with
    | nil => simp
    | cons name names ih =>
        rw [List.map_cons, List.foldl_cons, next, ih, List.append_assoc]
        rfl
  rw [components, List.foldl_append, hups, hnames]
  rfl

theorem mem_names_of_mem_next {walk : Walk} {component : Component} {name : String}
    (h : name ∈ (walk.next component).names) : name ∈ walk.names ∨ component = .normal name := by
  cases component with
  | normal other => simpa [next, eq_comm] using h
  | up =>
      rw [next] at h
      split at h
      · cases h
      · exact Or.inl (List.dropLast_subset _ h)
  | _ => exact Or.inl h

/-- The names of a walk come from where it started or from a step. -/
theorem mem_of_mem_foldl_next {walk : Walk} {steps : List Component} {name : String}
    (h : name ∈ (steps.foldl next walk).names) : name ∈ walk.names ∨ .normal name ∈ steps := by
  induction steps generalizing walk with
  | nil => exact Or.inl h
  | cons step steps ih =>
      rcases ih h with hname | hname
      · rcases mem_names_of_mem_next hname with hname | rfl
        · exact Or.inl hname
        · exact Or.inr List.mem_cons_self
      · exact Or.inr (List.mem_cons_of_mem _ hname)

theorem components_injective {walk other : Walk} (h : walk.components = other.components) :
    walk = other := by
  rw [← foldl_next_components walk, h, foldl_next_components]

/-! ## The stack -/

theorem push_components (walk : Walk) {component : Component} (h : component.IsStep) :
    push walk.components.reverse component = (walk.next component).components.reverse := by
  cases component with
  | root => exact absurd h Component.not_isStep_root
  | here => exact absurd h Component.not_isStep_here
  | normal name => simp [push, next, components]
  | up =>
      rcases List.eq_nil_or_concat walk.names with hnames | ⟨names, last, hnames⟩
      · have hpush (count : Nat) : push (List.replicate count Component.up) .up =
            List.replicate (count + 1) .up := by
          cases count <;> rfl
        simp [components, next, hnames, hpush]
      · simp [components, next, hnames, push]

theorem push_root_names (walk : Walk) {component : Component} (h : component.IsStep) :
    push (.root :: walk.names.map .normal).reverse component =
      (.root :: (walk.next component).names.map .normal).reverse := by
  cases component with
  | root => exact absurd h Component.not_isStep_root
  | here => exact absurd h Component.not_isStep_here
  | normal name => simp [push, next]
  | up =>
      rcases List.eq_nil_or_concat walk.names with hnames | ⟨names, last, hnames⟩
      · simp [next, hnames, push]
      · simp [next, hnames, push]

theorem foldl_push_components (walk : Walk) {steps : List Component}
    (h : ∀ step ∈ steps, step.IsStep) :
    steps.foldl push walk.components.reverse = (steps.foldl next walk).components.reverse := by
  induction steps generalizing walk with
  | nil => rfl
  | cons step steps ih =>
      rw [List.forall_mem_cons] at h
      rw [List.foldl_cons, List.foldl_cons, push_components walk h.1]
      exact ih _ h.2

theorem foldl_push_root_names (walk : Walk) {steps : List Component}
    (h : ∀ step ∈ steps, step.IsStep) :
    steps.foldl push (.root :: walk.names.map .normal).reverse =
      (.root :: (steps.foldl next walk).names.map .normal).reverse := by
  induction steps generalizing walk with
  | nil => rfl
  | cons step steps ih =>
      rw [List.forall_mem_cons] at h
      rw [List.foldl_cons, List.foldl_cons, push_root_names walk h.1]
      exact ih _ h.2

end Walk

/-! ## Paths -/

/-- Where the steps of a path lead. -/
def walk (path : Path) : Walk := path.steps.foldl Walk.next .start

theorem walk_join {directory path : Path} (hpath : path.isAbsolute = false) :
    (directory.join path).walk = directory.walk.followed path.walk := by
  rw [walk, steps_join hpath, List.foldl_append, walk, walk, ← Walk.foldl_next,
    Walk.followed_start]

/-- Where a path leads from a directory, however it is taken apart. -/
theorem walk_join_join {directory base path : Path} (hbase : base.isAbsolute = false)
    (hpath : path.isAbsolute = false) :
    ((directory.join base).join path).walk = directory.walk.followed (base.join path).walk := by
  have hjoined : (base.join path).isAbsolute = false := by rw [isAbsolute_join hpath, hbase]
  rw [← walk_join hjoined, walk, walk, steps_join hpath, steps_join hbase, steps_join hjoined,
    steps_join hpath, List.append_assoc]

theorem walk_ofComponents {walk : Walk} (h : ∀ component ∈ walk.components, component.IsStep) :
    (ofComponents walk.components).walk = walk := by
  rw [Path.walk, steps_ofComponents h, Walk.foldl_next_components]

theorem walk_ofComponents_root {names : List String}
    (h : ∀ component ∈ names.map Component.normal, component.IsStep) :
    (ofComponents (.root :: names.map .normal)).walk = ⟨0, names⟩ := by
  rw [Path.walk, steps_ofComponents_root h]
  exact Walk.foldl_next_components ⟨0, names⟩

/-- A walk goes along names of its path only. -/
theorem mem_steps_of_mem_walk {path : Path} {name : String} (h : name ∈ path.walk.names) :
    .normal name ∈ path.steps :=
  (Walk.mem_of_mem_foldl_next h).resolve_left List.not_mem_nil

theorem isStep_of_mem_names {path : Path} :
    ∀ component ∈ path.walk.names.map Component.normal, component.IsStep :=
  List.forall_mem_map.mpr fun _ hname => isStep_of_mem_steps (mem_steps_of_mem_walk hname)

/-- The levels of a walk are steps anyway. -/
theorem Walk.isStep_components {walk : Walk}
    (h : ∀ component ∈ walk.names.map Component.normal, component.IsStep) :
    ∀ component ∈ walk.components, component.IsStep := by
  refine List.forall_mem_append.mpr ⟨fun component hmem => ?_, h⟩
  rw [List.eq_of_mem_replicate hmem]
  exact Component.isStep_up

theorem isStep_of_mem_walk {path : Path} :
    ∀ component ∈ path.walk.components, component.IsStep :=
  Walk.isStep_components isStep_of_mem_names

theorem normalize_eq {path : Path} (h : path.isAbsolute = false) :
    path.normalize = ofComponents path.walk.components := by
  have hfold : path.components.foldl push [] = path.steps.foldl push [] := by
    rw [components_eq]
    unfold isAbsolute at h
    cases hlead : lead path.text.toList with
    | none => rfl
    | some first =>
        -- a path that does not begin at the root can only begin with a point
        cases first with
        | here => rfl
        | root => simp [hlead] at h
        | _ =>
            unfold lead at hlead
            split at hlead <;> simp at hlead
  rw [normalize, fold, hfold]
  have hsteps : ∀ step ∈ path.steps, step.IsStep := fun _ => isStep_of_mem_steps
  have hempty : [] = Walk.start.components.reverse := rfl
  rw [hempty, Walk.foldl_push_components .start hsteps, List.reverse_reverse, walk]

theorem normalize_eq_of_isAbsolute {path : Path} (h : path.isAbsolute = true) :
    path.normalize = ofComponents (.root :: path.walk.names.map .normal) := by
  rw [isAbsolute, decide_eq_true_eq] at h
  rw [normalize, fold, components_eq, h]
  have hsteps : ∀ step ∈ path.steps, step.IsStep := fun _ => isStep_of_mem_steps
  have hroot : push [] .root = (.root :: Walk.start.names.map .normal).reverse := rfl
  rw [Option.toList_some, List.singleton_append, List.foldl_cons, hroot,
    Walk.foldl_push_root_names .start hsteps, List.reverse_reverse, walk]

/-- The normal form of a path that does not begin at the root is its walk. -/
theorem components_normalize {path : Path} (h : path.isAbsolute = false) :
    path.normalize.components = path.walk.components := by
  rw [normalize_eq h, components_ofComponents isStep_of_mem_walk]

/-- The normal form of a path that begins at the root goes down from there. -/
theorem components_normalize_of_isAbsolute {path : Path} (h : path.isAbsolute = true) :
    path.normalize.components = .root :: path.walk.names.map .normal := by
  rw [normalize_eq_of_isAbsolute h, components_ofComponents_root isStep_of_mem_names]

/-! ## Directories -/

/-- The directory of a place that a walk has reached along a name. -/
theorem directory_ofComponents {walk : Walk} (hnames : walk.names ≠ [])
    (h : ∀ component ∈ walk.components, component.IsStep) :
    (ofComponents walk.components).directory =
      ofComponents walk.parent.components := by
  obtain ⟨ups, names⟩ := walk
  obtain ⟨first, last, rfl⟩ : ∃ first last, names = first ++ [last] :=
    ⟨_, _, (List.dropLast_concat_getLast hnames).symm⟩
  have hsplit : (Walk.mk ups (first ++ [last])).components =
      (Walk.mk ups first).components ++ [.normal last] := by
    rw [Walk.components, List.map_append, ← List.append_assoc]
    rfl
  rw [hsplit] at h ⊢
  rw [directory, parent?_ofComponents_append h, Option.getD_some, Walk.parent,
    List.dropLast_concat]

/-- The same below the root. -/
theorem parent?_ofComponents_root {names : List String} (hnames : names ≠ [])
    (h : ∀ component ∈ names.map Component.normal, component.IsStep) :
    (ofComponents (.root :: names.map .normal)).parent? =
      some (ofComponents (.root :: names.dropLast.map .normal)) := by
  obtain ⟨first, last, rfl⟩ : ∃ first last, names = first ++ [last] :=
    ⟨_, _, (List.dropLast_concat_getLast hnames).symm⟩
  rw [List.map_append] at h ⊢
  rw [List.dropLast_concat]
  exact parent?_ofComponents_root_append h

theorem isStep_dropLast {names : List String}
    (h : ∀ component ∈ names.map Component.normal, component.IsStep) :
    ∀ component ∈ names.dropLast.map Component.normal, component.IsStep :=
  fun component hmem => h component (List.map_subset _ (List.dropLast_subset names) hmem)

theorem isStep_parent {walk : Walk} (h : ∀ component ∈ walk.components, component.IsStep) :
    ∀ component ∈ walk.parent.components, component.IsStep := by
  rw [Walk.components, List.forall_mem_append] at h ⊢
  exact ⟨h.1, isStep_dropLast h.2⟩

end ValidatorGen.Path
