import ValidatorGen.Proofs.Module.Build

/-!
# Names without a location are reported together

A module imports what its exports need, so every function and every type they need has to have a
location.  `build_reports_unresolved` says what happens if some have none: all of them are reported,
functions before types and each once, in the order in which the exports need them first
(`Unlocated`).  Nothing else that is wrong with a job of legal schemas is looked at before, and
nothing else is reported in this way.

## Strategy

A job of legal schemas passes the first question of `build`, and the second one is about locations.
That the questions behind it report something else is shown question by question
(`NeverUnresolved`).  The names that are reported are a filtered list without its repetitions; that
they stand in the order of first appearance is proved by induction from the right.
-/

namespace ValidatorGen.Module

variable {base : Path} {preamble : String} {locations : Locations} {job : Job}

/-! ## First appearances -/

/-- Names of a list without a location: each of them once, in the order of first appearance. -/
structure Unlocated (locations : Table String) (needed names : List String) : Prop where
  mem : ∀ name, name ∈ names ↔ name ∈ needed ∧ locations.get? name = none
  nodup : names.Nodup
  order : names.Pairwise fun a b => needed.idxOf a < needed.idxOf b

theorem pairwise_idxOf_cons {name : String} {names found : List String}
    (h : found.Pairwise fun a b => names.idxOf a < names.idxOf b) (hne : ∀ a ∈ found, a ≠ name) :
    found.Pairwise fun a b => (name :: names).idxOf a < (name :: names).idxOf b := by
  refine h.imp_of_mem fun {a b} ha hb hlt => ?_
  rw [List.idxOf_cons_ne _ (hne a ha).symm, List.idxOf_cons_ne _ (hne b hb).symm]
  exact Nat.succ_lt_succ hlt

/-- A name that is kept because it satisfies a test stands where it appears first. -/
theorem pairwise_idxOf_eraseDups (names : List String) (test : String → Bool) :
    (names.filter test).eraseDups.Pairwise fun a b => names.idxOf a < names.idxOf b := by
  induction names generalizing test with
  | nil => exact .nil
  | cons name names ih =>
      by_cases htest : test name = true
      · -- what is left behind the name satisfies a further test, which is to be another name
        rw [List.filter_cons_of_pos htest, List.eraseDups_cons, List.filter_filter]
        have hne : ∀ a ∈ (names.filter fun a => !a == name && test a).eraseDups, a ≠ name := by
          intro a ha
          rw [List.mem_eraseDups, List.mem_filter] at ha
          simp_all
        refine List.pairwise_cons.mpr ⟨fun a ha => ?_, pairwise_idxOf_cons (ih _) hne⟩
        rw [List.idxOf_cons_self, List.idxOf_cons_ne _ (hne a ha).symm]
        exact Nat.succ_pos _
      · rw [List.filter_cons_of_neg htest]
        refine pairwise_idxOf_cons (ih test) fun a ha heq => htest ?_
        rw [List.mem_eraseDups, List.mem_filter] at ha
        exact heq ▸ ha.2

theorem unlocated_missing (around : Surroundings) (names : List String) :
    Unlocated around.locations names (around.missing names) := by
  have horder := pairwise_idxOf_eraseDups names fun name => !around.locations.has name
  refine ⟨fun name => ?_, horder.imp fun {a b} hlt heq => ?_, horder⟩
  · rw [Surroundings.missing, List.mem_eraseDups, List.mem_filter]
    simp [Table.has]
  · exact absurd (heq ▸ hlt) (Nat.lt_irrefl _)

/-! ## Questions about something else -/

/-- Whatever else may be wrong, it is not the lack of a location that is reported. -/
def NeverUnresolved {α : Type} (answer : Except Problem α) : Prop :=
  ∀ file names, answer ≠ .error (.unresolved file names)

theorem NeverUnresolved.bind {α β : Type} {answer : Except Problem α} {next : α → Except Problem β}
    (hanswer : NeverUnresolved answer) (hnext : ∀ value, NeverUnresolved (next value)) :
    NeverUnresolved (answer >>= next) := by
  cases answer with
  | ok value => exact hnext value
  | error problem => exact fun file names h => hanswer file names (congrArg _ (Except.error.inj h))

/-- Names that are reported as unresolved stem from the first of two questions if the other one is
about something else. -/
theorem throw_eq_unresolved_iff {α β : Type} {c : Prop} [Decidable c] {problem : Problem}
    {next : α → Except Problem β} {otherwise : Except Problem β} (h : NeverUnresolved otherwise)
    {file : String} {names : List Unresolved} :
    (if c then throw problem >>= next else otherwise) = .error (.unresolved file names) ↔
      c ∧ problem = .unresolved file names := by
  by_cases hc : c
  · simp [hc, throw, throwThe, MonadExceptOf.throw, bind, Except.bind]
  · simp [hc, h file names]

theorem neverUnresolved_mapError {ε α : Type} {answer : Except ε α} {f : ε → Problem}
    (h : ∀ reason file names, f reason ≠ .unresolved file names) :
    NeverUnresolved (answer.mapError f) := by
  intro file names heq
  cases answer with
  | ok value => cases heq
  | error reason => exact h reason file names (Except.error.inj heq)

theorem neverUnresolved_checkExports (file : String) (declared names : List String) :
    NeverUnresolved (checkExports file declared names) := by
  induction names generalizing declared with
  | nil => exact nofun
  | cons name names ih =>
      unfold checkExports
      split
      · rintro unnamed names ⟨⟩
      · split
        · rintro unnamed names ⟨⟩
        · exact ih _

theorem neverUnresolved_checkFieldNames (file : String) (declared names : List String) :
    NeverUnresolved (checkFieldNames file declared names) := by
  unfold checkFieldNames
  split <;> exact nofun

/-! ## Modules -/

/-- All names without a location that a job needs. -/
def unresolvedNames (base : Path) (locations : Locations) (job : Job) : List Unresolved :=
  let around := Surroundings.mk base (outputPath base job.output)
  ((around locations.imports).missing (checkerNames (needsOf job.exports))).map .checker ++
    ((around locations.types).missing (typeNames (needsOf job.exports))).map .type

/-- The names without a location are the only ones that are reported as such, and if there are any
they are reported before anything else. -/
theorem build_eq_unresolved_iff (hlegal : ∀ entry ∈ job.exports, entry.2.check = .ok ())
    {file : String} {names : List Unresolved} :
    build base preamble locations job = .error (.unresolved file names) ↔
      unresolvedNames base locations job ≠ [] ∧ file = (outputPath base job.output).text ∧
        names = unresolvedNames base locations job := by
  have hquestions : job.exports.forM (fun entry => entry.2.check) = .ok () :=
    forM_eq_ok_iff.mpr hlegal
  unfold build
  simp only [hquestions]
  refine (throw_eq_unresolved_iff ?_).trans ?_
  · refine .bind (neverUnresolved_mapError nofun) fun hoists => ?_
    refine .bind (neverUnresolved_checkExports _ _ _) fun declared => ?_
    refine .bind (neverUnresolved_checkFieldNames _ _ _) fun _ => ?_
    exact .bind (neverUnresolved_mapError nofun) fun exports => nofun
  · rw [Problem.unresolved.injEq, Bool.not_eq_true', List.isEmpty_eq_false_iff]
    exact and_congr_right fun _ => and_congr eq_comm eq_comm

theorem unresolvedNames_ne_nil_iff : unresolvedNames base locations job ≠ [] ↔
    (∃ name ∈ checkerNames (needsOf job.exports), locations.imports.get? name = none) ∨
      ∃ name ∈ typeNames (needsOf job.exports), locations.types.get? name = none := by
  have hknown (table : Table String) (names : List String) :
      (∀ name ∈ names, table.has name = true) ↔ ¬∃ name ∈ names, table.get? name = none := by
    simp [Table.has, Option.isSome_iff_ne_none]
  rw [unresolvedNames, ne_eq, List.append_eq_nil_iff, List.map_eq_nil_iff, List.map_eq_nil_iff,
    Surroundings.missing_eq_nil_iff, Surroundings.missing_eq_nil_iff, hknown, hknown, ← not_or,
    not_not]

/-- A job of legal schemas is refused for names without a location exactly if there are some, and
then all of them are reported. -/
theorem build_reports_unresolved (hlegal : ∀ entry ∈ job.exports, entry.2.check = .ok ()) :
    ((∃ file names, build base preamble locations job = .error (.unresolved file names)) ↔
      (∃ name ∈ checkerNames (needsOf job.exports), locations.imports.get? name = none) ∨
        ∃ name ∈ typeNames (needsOf job.exports), locations.types.get? name = none) ∧
    ∀ file names, build base preamble locations job = .error (.unresolved file names) →
      file = (outputPath base job.output).text ∧
      ∃ functions types, names = functions.map .checker ++ types.map .type ∧
        Unlocated locations.imports (checkerNames (needsOf job.exports)) functions ∧
        Unlocated locations.types (typeNames (needsOf job.exports)) types := by
  refine ⟨?_, fun file names h => ?_⟩
  · rw [← unresolvedNames_ne_nil_iff]
    constructor
    · rintro ⟨file, names, h⟩
      exact ((build_eq_unresolved_iff hlegal).mp h).1
    · intro h
      exact ⟨_, _, (build_eq_unresolved_iff hlegal).mpr ⟨h, rfl, rfl⟩⟩
  · obtain ⟨-, hfile, hnames⟩ := (build_eq_unresolved_iff hlegal).mp h
    exact ⟨hfile, _, _, hnames, unlocated_missing ⟨_, _, locations.imports⟩ _,
      unlocated_missing ⟨_, _, locations.types⟩ _⟩

/-- A job with much that is wrong: a name that is no identifier, one that is exported twice, two
exports that read each other, a field that bears the name of one, and `Item`, which is both a
validator and a type. -/
def hopelessJob : Job where
  output := ⟨"o.js"⟩
  exports := [("deA", .list (.custom "deB" [])), ("deB", .list (.custom "deA" [])),
    ("no name", .custom "Item" [.applied "Array" [.named "Item"], .named "Part"]),
    ("deB", .object (.named "Item") [("deA", .mapping .string (.custom "Item" []))] [])]

/-- Where some of the names of `hopelessJob` are. -/
def hopelessLocations : Locations where
  types := [("Part", "./types.js")]
  imports := [("deB", "./o.js"), ("deA", "./o.js"), ("deField", "./runtime.js")]

theorem build_reports_unresolved_hopeless :
    (∀ entry ∈ hopelessJob.exports, entry.2.check = .ok ()) ∧
    build ⟨"/p"⟩ "" hopelessLocations hopelessJob = .error (.unresolved "/p/o.js"
      [.checker "deList", .checker "Item", .checker "deMapping", .checker "deString",
        .type "Item"]) ∧
    ∃ functions types, [.checker "deList", .checker "Item", .checker "deMapping",
        .checker "deString", .type "Item"] = functions.map Unresolved.checker ++
          types.map Unresolved.type ∧
      Unlocated hopelessLocations.imports (checkerNames (needsOf hopelessJob.exports)) functions ∧
      Unlocated hopelessLocations.types (typeNames (needsOf hopelessJob.exports)) types := by
  have hlegal : ∀ entry ∈ hopelessJob.exports, entry.2.check = .ok () := by decide
  have hbuild : reason? (build ⟨"/p"⟩ "" hopelessLocations hopelessJob) = some (.unresolved
      "/p/o.js" [.checker "deList", .checker "Item", .checker "deMapping", .checker "deString",
        .type "Item"]) := by
    decide +kernel
  rw [reason?_eq_some_iff] at hbuild
  exact ⟨hlegal, hbuild, ((build_reports_unresolved hlegal).2 _ _ hbuild).2⟩

end ValidatorGen.Module
