import ValidatorGen.Proofs.Module.Build
import ValidatorGen.Proofs.Module.Order

/-!
# When a module declares no name twice

Imports, declarations that stand once and exports share the scope of their module.  `build` compares
the exports with everything declared so far, and each source of names is free of repetitions; the
one pair that it never compares is a declaration and an import.  `nodup_bindings_iff` says so: a
name is declared twice exactly if a custom validator that is imported from another module bears the
name of a refinement that the module declares itself.
-/

namespace ValidatorGen.Module

variable {base : Path} {preamble : String} {locations : Locations} {job : Job} {module : Module}

/-- Every name that a module binds to a value, as often as it does. -/
def bindings (module : Module) : List String :=
  module.importedNames ++ module.hoistedNames ++ module.exportedNames

namespace Built

theorem perm_exports (built : Built base preamble locations job module) :
    module.exports.Perm job.exports := (loadOrder_eq_ok built.exports).1

theorem perm_exportedNames (built : Built base preamble locations job module) :
    module.exportedNames.Perm (job.exports.map Prod.fst) := built.perm_exports.map Prod.fst

theorem nodup_exportedNames (built : Built base preamble locations job module) :
    module.exportedNames.Nodup := built.perm_exportedNames.nodup_iff.mpr built.distinct

theorem nodup_hoistedNames (built : Built base preamble locations job module) :
    module.hoistedNames.Nodup := nodup_keys_of_registerHoists built.hoists

theorem nodup_importedNames (built : Built base preamble locations job module) :
    module.importedNames.Nodup := by
  rw [importedNames, built.imports]
  exact Surroundings.nodup_imports _

theorem notMem_of_mem_exportedNames (built : Built base preamble locations job module)
    {name : String} (h : name ∈ module.exportedNames) :
    name ∉ module.hoistedNames ∧ name ∉ module.importedNames :=
  built.fresh name (built.perm_exportedNames.mem_iff.mp h)

theorem mem_hoistedNames_iff (built : Built base preamble locations job module) {name : String} :
    name ∈ module.hoistedNames ↔ ∃ hoist ∈ (needsOf job.exports).hoists, hoist.key = name := by
  rw [hoistedNames, List.mem_map]
  exact exists_congr fun hoist => and_congr_left' (mem_of_registerHoists built.hoists hoist)

/-- A module imports what its exports need and another module has. -/
theorem mem_importedNames_iff (built : Built base preamble locations job module) {name : String} :
    name ∈ module.importedNames ↔ name ∈ checkerNames (needsOf job.exports) ∧
      ∃ location, locations.imports.get? name = some location ∧
        Location.isOwn base location module.path = false := by
  rw [importedNames, built.imports, Surroundings.mem_imports_iff,
    Surroundings.isSome_specifier?_iff]

end Built

theorem nodup_bindings_iff_disjoint (built : Built base preamble locations job module) :
    module.bindings.Nodup ↔ ∀ name ∈ module.hoistedNames, name ∉ module.importedNames := by
  have hexports : List.Disjoint (module.importedNames ++ module.hoistedNames)
      module.exportedNames := by
    intro name hdeclared hexport
    have hnew := built.notMem_of_mem_exportedNames hexport
    rcases List.mem_append.mp hdeclared with himport | hhoist
    · exact hnew.2 himport
    · exact hnew.1 hhoist
  rw [bindings, List.nodup_append', List.nodup_append']
  constructor
  · rintro ⟨⟨-, -, hdisjoint⟩, -, -⟩ name hhoist himport
    exact hdisjoint himport hhoist
  · intro h
    exact ⟨⟨built.nodup_importedNames, built.nodup_hoistedNames,
      fun name himport hhoist => h name hhoist himport⟩, built.nodup_exportedNames, hexports⟩

/-- A job whose module imports `ShapeRefine` and declares it as well. -/
def clashingJob : Job where
  output := ⟨"shapes.js"⟩
  exports := [("deShape", .sum (.named "Shape") "kind" (.named "Kind") []),
    ("deOther", .custom "ShapeRefine" [])]

/-- Where the names of `clashingJob` are. -/
def clashingLocations : Locations where
  types := [("Shape", "./types.js"), ("Kind", "./types.js")]
  imports := [("ShapeRefine", "./other.js"), ("deString", "./runtime.js")]

/-- A module declares no name twice exactly if every custom validator that bears the name of one of
its declarations is located in the module itself. -/
theorem nodup_bindings_iff (h : build base preamble locations job = .ok module) :
    module.bindings.Nodup ↔
      ∀ hoist ∈ (needsOf job.exports).hoists, hoist.key ∈ checkerNames (needsOf job.exports) →
        ∃ location, locations.imports.get? hoist.key = some location ∧
          Location.isOwn base location module.path = true := by
  have built := build_eq_ok_iff.mp h
  rw [nodup_bindings_iff_disjoint built]
  constructor
  · intro hdisjoint hoist hhoist hneeded
    have hstands : hoist.key ∈ module.hoistedNames :=
      built.mem_hoistedNames_iff.mpr ⟨hoist, hhoist, rfl⟩
    -- every name that is needed has a location, or nothing would have been built
    obtain ⟨location, hlocation⟩ := Option.isSome_iff_exists.mp (built.located _ hneeded)
    refine ⟨location, hlocation, ?_⟩
    by_contra hforeign
    rw [Bool.not_eq_true] at hforeign
    exact hdisjoint _ hstands
      (built.mem_importedNames_iff.mpr ⟨hneeded, location, hlocation, hforeign⟩)
  · intro hown name hhoist himport
    obtain ⟨hoist, hmem, rfl⟩ := built.mem_hoistedNames_iff.mp hhoist
    obtain ⟨hneeded, location, hlocation, hforeign⟩ := built.mem_importedNames_iff.mp himport
    obtain ⟨location', hlocation', hsame⟩ := hown hoist hmem hneeded
    obtain rfl := Option.some.inj (hlocation.symm.trans hlocation')
    rw [hforeign] at hsame
    cases hsame

/-- A module that is built may declare a name twice. -/
theorem exists_build_repeating_a_binding :
    ∃ module, build ⟨"/p"⟩ "" clashingLocations clashingJob = .ok module ∧
      module.bindings = ["ShapeRefine", "deString", "ShapeRefine", "deShape", "deOther"] ∧
        ¬module.bindings.Nodup := by
  have hbindings : (build ⟨"/p"⟩ "" clashingLocations clashingJob).toOption.map bindings =
      some ["ShapeRefine", "deString", "ShapeRefine", "deShape", "deOther"] := by
    decide +kernel
  obtain ⟨module, hbuild, heq⟩ := exists_eq_ok_of_map_toOption hbindings
  refine ⟨module, hbuild, heq, ?_⟩
  rw [heq]
  decide

/-- The condition at work: `ShapeRefine` is needed and is not located in `shapes.js`. -/
theorem bindings_of_clashingJob :
    ∃ module, build ⟨"/p"⟩ "" clashingLocations clashingJob = .ok module ∧
      (module.bindings.Nodup ↔
        ∀ hoist ∈ (needsOf clashingJob.exports).hoists,
          hoist.key ∈ checkerNames (needsOf clashingJob.exports) →
            ∃ location, clashingLocations.imports.get? hoist.key = some location ∧
              Location.isOwn ⟨"/p"⟩ location module.path = true) := by
  have hpath : (build ⟨"/p"⟩ "" clashingLocations clashingJob).toOption.map path =
      some ⟨"/p/shapes.js"⟩ := by
    decide +kernel
  obtain ⟨module, hbuild, -⟩ := exists_eq_ok_of_map_toOption hpath
  exact ⟨module, hbuild, nodup_bindings_iff hbuild⟩

end ValidatorGen.Module
