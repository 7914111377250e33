import ValidatorGen.Proofs.Module.Bindings

/-!
# When a module binds every function that it calls

A function that the exports of a module need is imported, unless its location is the module itself.
In that case `build` trusts the location: it does not ask whether the module declares or exports the
name.  So a module may call a function that nothing in it binds.

`forall_mem_bindings_iff` says when that does not happen.  The one question that `build` leaves open
is put in terms of the job: every name that is located in the module has to be the name of one of
the job's exports or of a refinement that they rely on.
-/

namespace ValidatorGen.Module

variable {base : Path} {preamble : String} {locations : Locations} {job : Job} {module : Module}

/-- A function that is needed has a location, and is imported if another module is located there. -/
theorem Built.mem_importedNames_or_isOwn (built : Built base preamble locations job module)
    {name : String} (hneeded : name ∈ checkerNames (needsOf job.exports)) :
    name ∈ module.importedNames ∨ ∃ location, locations.imports.get? name = some location ∧
      Location.isOwn base location module.path = true := by
  obtain ⟨location, hlocation⟩ := Option.isSome_iff_exists.mp (built.located name hneeded)
  by_cases hown : Location.isOwn base location module.path = true
  · exact Or.inr ⟨location, hlocation, hown⟩
  · rw [Bool.not_eq_true] at hown
    exact Or.inl (built.mem_importedNames_iff.mpr ⟨hneeded, location, hlocation, hown⟩)

/-- Nothing is imported that is located in the module itself. -/
theorem Built.notMem_importedNames_of_isOwn (built : Built base preamble locations job module)
    {name location : String} (hlocation : locations.imports.get? name = some location)
    (hown : Location.isOwn base location module.path = true) : name ∉ module.importedNames := by
  intro himport
  obtain ⟨-, location', hlocation', hforeign⟩ := built.mem_importedNames_iff.mp himport
  obtain rfl := Option.some.inj (hlocation.symm.trans hlocation')
  rw [hown] at hforeign
  cases hforeign

/-- A job whose only export calls `deItem`, which is located in the module of the job. -/
def danglingJob : Job where
  output := ⟨"o.js"⟩
  exports := [("deItems", .list (.custom "deItem" []))]

/-- Where the names of `danglingJob` are. -/
def danglingLocations : Locations where
  types := []
  imports := [("deList", "./runtime.js"), ("deItem", "./o.js")]

/-- Every function that the exports need is bound by the module exactly if those that are located in
the module are names of its exports or of its declarations. -/
theorem forall_mem_bindings_iff (h : build base preamble locations job = .ok module) :
    (∀ name ∈ checkerNames (needsOf job.exports), name ∈ module.bindings) ↔
      ∀ name ∈ checkerNames (needsOf job.exports), ∀ location,
        locations.imports.get? name = some location →
          Location.isOwn base location module.path = true →
            name ∈ job.exports.map Prod.fst ∨
              ∃ hoist ∈ (needsOf job.exports).hoists, hoist.key = name := by
  have built := build_eq_ok_iff.mp h
  have hbound (name : String) : name ∈ module.bindings ↔ name ∈ module.importedNames ∨
      name ∈ job.exports.map Prod.fst ∨
        ∃ hoist ∈ (needsOf job.exports).hoists, hoist.key = name := by
    rw [bindings, List.mem_append, List.mem_append, or_assoc, built.mem_hoistedNames_iff,
      built.perm_exportedNames.mem_iff]
    exact or_congr_right or_comm
  constructor
  · intro hall name hneeded location hlocation hown
    -- the name is bound, and it is not bound by an import
    rcases (hbound name).mp (hall name hneeded) with himport | hlocal
    · exact absurd himport (built.notMem_importedNames_of_isOwn hlocation hown)
    · exact hlocal
  · intro hown name hneeded
    rw [hbound]
    rcases built.mem_importedNames_or_isOwn hneeded with himport | ⟨location, hlocation, hsame⟩
    · exact Or.inl himport
    · exact Or.inr (hown name hneeded location hlocation hsame)

/-- A module that is built, without a preamble, may call a function that it does not bind. -/
theorem exists_build_calling_an_unbound_name :
    ∃ module, build ⟨"/p"⟩ "" danglingLocations danglingJob = .ok module ∧
      "deItem" ∈ checkerNames (needsOf danglingJob.exports) ∧ "deItem" ∉ module.bindings := by
  have hbindings : (build ⟨"/p"⟩ "" danglingLocations danglingJob).toOption.map bindings =
      some ["deList", "deItems"] := by
    decide +kernel
  obtain ⟨module, hbuild, heq⟩ := exists_eq_ok_of_map_toOption hbindings
  refine ⟨module, hbuild, by decide, ?_⟩
  rw [heq]
  decide

/-- The condition at work: `deItem` is located in `o.js`, which does not export it. -/
theorem bindings_of_danglingJob :
    ∃ module, build ⟨"/p"⟩ "" danglingLocations danglingJob = .ok module ∧
      ((∀ name ∈ checkerNames (needsOf danglingJob.exports), name ∈ module.bindings) ↔
        ∀ name ∈ checkerNames (needsOf danglingJob.exports), ∀ location,
          danglingLocations.imports.get? name = some location →
            Location.isOwn ⟨"/p"⟩ location module.path = true →
              name ∈ danglingJob.exports.map Prod.fst ∨
                ∃ hoist ∈ (needsOf danglingJob.exports).hoists, hoist.key = name) := by
  have hpath : (build ⟨"/p"⟩ "" danglingLocations danglingJob).toOption.map path =
      some ⟨"/p/o.js"⟩ := by
    decide +kernel
  obtain ⟨module, hbuild, -⟩ := exists_eq_ok_of_map_toOption hpath
  exact ⟨module, hbuild, forall_mem_bindings_iff hbuild⟩

end ValidatorGen.Module
