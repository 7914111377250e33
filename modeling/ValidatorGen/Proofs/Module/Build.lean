import Mathlib.Data.List.Nodup
import ValidatorGen.Module.Build
import ValidatorGen.Proofs.Module.Registry
import ValidatorGen.Proofs.Questions

/-!
# What a successful build has made sure of

`build` asks one question after the other and gives up at the first one whose answer is wrong.
`build_eq_ok_iff` turns its success into a record, `Built`: the answers to all of the questions, and
where the parts of the module come from.

## Strategy

Each question is a function of its own, and each gets one lemma that says when it succeeds and with
what. `checkExports` carries a list of the names that it has met so far, so its lemma is stated for
an arbitrary such list and proved by induction on the names that remain. The collection of the
declarations has a module of its own, `Proofs.Module.Registry`.
-/

namespace ValidatorGen.Module

open ValidatorGen.Code

/-! ## Imports -/

namespace Surroundings

variable {around : Surroundings}

theorem missing_eq_nil_iff {names : List String} :
    around.missing names = [] ↔ ∀ name ∈ names, around.locations.has name = true := by
  constructor
  · intro hmissing name hname
    by_contra hunknown
    have hmem : name ∈ around.missing names := by
      rw [missing, List.mem_eraseDups, List.mem_filter]
      exact ⟨hname, by simpa using hunknown⟩
    rw [hmissing] at hmem
    exact List.not_mem_nil hmem
  · intro hknown
    have hfilter : (names.filter fun name => !around.locations.has name) = [] :=
      List.filter_eq_nil_iff.mpr (by simpa using hknown)
    rw [missing, hfilter, List.eraseDups_nil]

theorem isSome_specifier?_iff {name : String} :
    (around.specifier? name).isSome = true ↔ ∃ location,
      around.locations.get? name = some location ∧
        Location.isOwn around.base location around.module = false := by
  unfold specifier?
  cases around.locations.get? name with
  | none => simp
  | some location =>
      cases hown : Location.isOwn around.base location around.module <;> simp [hown]

/-- The imported names are those that have a location outside the module. -/
theorem mem_imports_iff {name : String} {names : List String} :
    name ∈ (around.imports names).flatMap Import.names ↔
      name ∈ names ∧ (around.specifier? name).isSome = true := by
  simp only [imports, List.mem_flatMap, List.mem_map, exists_exists_and_eq_and,
    Text.mem_ascending, List.mem_filter, List.mem_filterMap, decide_eq_true_eq,
    Option.isSome_iff_exists]
  constructor
  · rintro ⟨specifier, -, hname, hspecifier⟩
    exact ⟨hname, specifier, hspecifier⟩
  · rintro ⟨hname, specifier, hspecifier⟩
    exact ⟨specifier, ⟨name, hname, hspecifier⟩, hname, hspecifier⟩

/-- No name is imported twice: within a line the names ascend strictly, and a name has one
specifier, so it stands in one line only. -/
theorem nodup_imports (names : List String) :
    ((around.imports names).flatMap Import.names).Nodup := by
  have hnodup (texts : List String) : (Text.ascending texts).Nodup :=
    (Text.pairwise_ascending texts).imp String.ne_of_lt
  rw [imports, List.flatMap_map, List.nodup_flatMap]
  refine ⟨fun specifier _ => hnodup _, (hnodup _).imp fun {a b} hne => ?_⟩
  intro name ha hb
  rw [Text.mem_ascending, List.mem_filter, decide_eq_true_eq] at ha hb
  exact hne (Option.some.inj (ha.2.symm.trans hb.2))

end Surroundings

/-! ## Exports and fields -/

/-- Exports are accepted if they are identifiers, differ, and are new to the module. -/
theorem checkExports_eq_ok_iff {file : String} {declared names result : List String} :
    checkExports file declared names = .ok result ↔
      (∀ name ∈ names, isIdentifier name = true) ∧ Fresh declared names ∧
        result = names.reverse ++ declared := by
  induction names generalizing declared with
  | nil =>
      simp only [checkExports, Except.ok.injEq, List.not_mem_nil, false_implies, implies_true,
        fresh_nil, List.reverse_nil, List.nil_append, true_and]
      exact eq_comm
  | cons name rest ih =>
      unfold checkExports
      rw [fresh_cons, List.forall_mem_cons, List.reverse_cons, List.append_assoc,
        List.singleton_append]
      split
      · next hname => simp_all
      · next hname =>
          rw [Bool.not_eq_true, Bool.not_eq_false'] at hname
          split
          · next hdeclared => simp_all
          · next hdeclared =>
              rw [List.contains_iff_mem] at hdeclared
              rw [ih, and_iff_right hname, and_iff_right hdeclared]

theorem checkFieldNames_eq_ok_iff {file : String} {declared names : List String} {answer : Unit} :
    checkFieldNames file declared names = .ok answer ↔ ∀ name ∈ names, name ∉ declared := by
  unfold checkFieldNames
  split
  · next name hfound =>
      have hname : name ∈ declared := by simpa using List.find?_some hfound
      simp only [reduceCtorEq, false_iff, not_forall, not_not]
      exact ⟨name, List.mem_of_find?_eq_some hfound, hname⟩
  · next hnone => simpa using List.find?_eq_none.mp hnone

/-! ## Modules -/

/-- The names that a module imports as values. -/
def importedNames (module : Module) : List String := module.imports.flatMap Import.names

/-- The names of the declarations that stand once in a module. -/
def hoistedNames (module : Module) : List String := module.hoists.map Hoist.key

/-- The names that a module exports. -/
def exportedNames (module : Module) : List String := module.exports.map Prod.fst

/-- A module is what `build` makes of a job: every question has been answered well, and each part
is what the answers make it. -/
structure Built (base : Path) (preamble : String) (locations : Locations) (job : Job)
    (module : Module) : Prop where
  path : module.path = outputPath base job.output
  preamble : module.preamble = preamble
  legal : ∀ entry ∈ job.exports, entry.2.check = .ok ()
  located : ∀ name ∈ checkerNames (needsOf job.exports), locations.imports.has name = true
  typesLocated : ∀ name ∈ typeNames (needsOf job.exports), locations.types.has name = true
  imports : module.imports =
    Surroundings.imports ⟨base, module.path, locations.imports⟩ (checkerNames (needsOf job.exports))
  typeImports : module.typeImports =
    Surroundings.imports ⟨base, module.path, locations.types⟩ (typeNames (needsOf job.exports))
  hoists : registerHoists (needsOf job.exports).hoists = .ok module.hoists
  identifiers : ∀ entry ∈ job.exports, isIdentifier entry.1 = true
  distinct : (job.exports.map Prod.fst).Nodup
  fresh : ∀ name ∈ job.exports.map Prod.fst,
    name ∉ module.hoistedNames ∧ name ∉ module.importedNames
  unshadowed : ∀ entry ∈ job.exports, ∀ name ∈ entry.2.fieldNames,
    name ∉ job.exports.map Prod.fst ∧ name ∉ module.hoistedNames ∧ name ∉ module.importedNames
  exports : loadOrder job.exports = .ok module.exports

/-- A build succeeds exactly if its module passes everything that is asked. -/
theorem build_eq_ok_iff {base : Path} {preamble : String} {locations : Locations} {job : Job}
    {module : Module} :
    build base preamble locations job = .ok module ↔
      Built base preamble locations job module := by
  unfold build
  -- each step of the build succeeds exactly under a condition of its own
  simp only [bind_eq_ok_iff, mapError_eq_ok_iff, unless_throw_eq_ok_iff, checkExports_eq_ok_iff,
    checkFieldNames_eq_ok_iff, forM_eq_ok_iff, Bool.not_eq_true', Bool.not_eq_false,
    List.isEmpty_iff, List.append_eq_nil_iff, List.map_eq_nil_iff,
    Surroundings.missing_eq_nil_iff]
  constructor
  · rintro ⟨⟨⟩, legal, ⟨located, typesLocated⟩, hoists, hhoists, declared,
      ⟨identifiers, ⟨distinct, fresh⟩, rfl⟩, ⟨⟩, unshadowed, exports, hexports, hmodule⟩
    obtain rfl := Except.ok.inj hmodule
    refine {
      path := rfl
      preamble := rfl
      legal := legal
      located := located
      typesLocated := typesLocated
      imports := rfl
      typeImports := rfl
      hoists := hhoists
      identifiers := List.forall_mem_map.mp identifiers
      distinct := distinct
      fresh := fun name hname => not_or.mp fun hmem => ?_
      unshadowed := fun entry hentry name hname => ?_
      exports := hexports }
    · exact fresh name hname (List.mem_append.mpr hmem)
    · -- declared by then are the exports, in reverse, then the hoists and the imports
      have hnew := unshadowed name (List.mem_flatMap.mpr ⟨entry, hentry, hname⟩)
      rw [List.mem_append, List.mem_reverse, not_or, List.mem_append, not_or] at hnew
      exact hnew
  · rintro ⟨path, preamble, legal, located, typesLocated, imports, typeImports, hoists,
      identifiers, distinct, fresh, unshadowed, exports⟩
    obtain ⟨_, _, _, _, _, _⟩ := module
    dsimp only at path preamble imports typeImports hoists exports
    subst path preamble imports typeImports
    refine ⟨(), legal, ⟨located, typesLocated⟩, _, hoists, _,
      ⟨List.forall_mem_map.mpr identifiers, ⟨distinct, fun name hname hmem => ?_⟩, rfl⟩, (), ?_, _,
      exports, rfl⟩
    · exact not_or.mpr (fresh name hname) (List.mem_append.mp hmem)
    · intro name hname
      obtain ⟨entry, hentry, hname⟩ := List.mem_flatMap.mp hname
      rw [List.mem_append, List.mem_reverse, not_or, List.mem_append, not_or]
      exact unshadowed entry hentry name hname

end ValidatorGen.Module
