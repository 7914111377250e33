import ValidatorGen.Proofs.Module.Bindings

/-!
# When a module can be loaded

The expressions of a module's exports are evaluated in their order while the module loads, and a
name may only be read once its own export has been evaluated.  `loadNames` are the names that the
expression of a schema reads at that time; `reads_code` ties them to the emitted expression.

`build` orders exports by their custom validators alone.  That covers the names of custom validators
and of refinements, but a standard checker may be an export of the module as well, if its location
says so, and such an export is not waited for.  `loadsSafely_iff` states exactly when a module
loads: the standard checkers that its own exports provide must happen to stand in front.
-/

namespace ValidatorGen

open Code

namespace Code

mutual

/-- The names that are read when an expression is evaluated.  The body of a function is left for its
calls. -/
def Expr.reads : Expr → List String
  | .read name => [name]
  | .text _ => []
  | .json _ => []
  | .property object _ => object.reads
  | .call function arguments => function.reads ++ readsOfAll arguments
  | .construct type argument => type :: argument.reads
  | .typeOf operand => operand.reads
  | .not operand => operand.reads
  | .binary _ left right => left.reads ++ right.reads
  | .conditional condition yes no => condition.reads ++ yes.reads ++ no.reads
  | .group inner => inner.reads
  | .function _ _ _ => []

def readsOfAll : List Expr → List String
  | [] => []
  | expr :: exprs => expr.reads ++ readsOfAll exprs

end

end Code

namespace Schema

/-- The names that the code of a schema reads when the module is loaded. -/
def loadNames : Schema → List String
  | .bool => [Checker.bool.name]
  | .number => [Checker.number.name]
  | .string => [Checker.string.name]
  | .filePath => [Checker.string.name]
  | .list element => Checker.list.name :: element.loadNames
  | .mapping key value => Checker.mapping.name :: (key.loadNames ++ value.loadNames)
  | .sum type _ _ _ => [refinementName type]
  | .custom name _ => [name]
  | _ => []

/-- The standard checkers that the code of a schema reads by itself when the module is loaded. -/
def loadCheckers : Schema → List Checker
  | .bool => [.bool]
  | .number => [.number]
  | .string => [.string]
  | .filePath => [.string]
  | .list element => .list :: element.loadCheckers
  | .mapping key value => .mapping :: (key.loadCheckers ++ value.loadCheckers)
  | _ => []

theorem reads_code (schema : Schema) : schema.code.reads = schema.loadNames := by
  induction schema with
  | list element ih => simp [code, bound, Expr.reads, readsOfAll, loadNames, ih]
  | mapping key value ihkey ihvalue =>
      simp [code, bound, Expr.reads, readsOfAll, loadNames, ihkey, ihvalue]
  | _ => simp [code, constantCode, enumerationCode, objectCode, Expr.reads, loadNames]

theorem name_mem_loadNames {schema : Schema} {checker : Checker}
    (h : checker ∈ schema.loadCheckers) : checker.name ∈ schema.loadNames := by
  induction schema with
  | list element ih =>
      rcases List.mem_cons.mp h with rfl | h
      · exact List.mem_cons_self
      · exact List.mem_cons_of_mem _ (ih h)
  | mapping key value ihkey ihvalue =>
      rcases List.mem_cons.mp h with rfl | h
      · exact List.mem_cons_self
      · refine List.mem_cons_of_mem _ (List.mem_append.mpr ?_)
        exact (List.mem_append.mp h).imp ihkey ihvalue
  | _ => simp_all [loadCheckers, loadNames]

/-- What is read at load is a custom validator, a refinement or a standard checker. -/
theorem cases_of_mem_loadNames {schema : Schema} {name : String} (h : name ∈ schema.loadNames) :
    name ∈ schema.eagerNames ∨ (∃ hoist ∈ schema.needs.hoists, hoist.key = name) ∨
      ∃ checker ∈ schema.loadCheckers, checker.name = name := by
  induction schema with
  | list element ih =>
      rcases List.mem_cons.mp h with rfl | h
      · exact Or.inr (Or.inr ⟨.list, List.mem_cons_self, rfl⟩)
      · rcases ih h with heager | ⟨hoist, hhoist, hkey⟩ | ⟨checker, hchecker, hname⟩
        · exact Or.inl heager
        · exact Or.inr (Or.inl ⟨hoist, List.mem_append_right _ hhoist, hkey⟩)
        · exact Or.inr (Or.inr ⟨checker, List.mem_cons_of_mem _ hchecker, hname⟩)
  | mapping key value ihkey ihvalue =>
      rcases List.mem_cons.mp h with rfl | h
      · exact Or.inr (Or.inr ⟨.mapping, List.mem_cons_self, rfl⟩)
      · have hsides := (List.mem_append.mp h).imp ihkey ihvalue
        simp only [eagerNames, needs, loadCheckers, Needs.hoists_merge, Needs.hoists_ofChecker,
          List.nil_append, List.mem_append, List.mem_cons]
        grind
  -- a sum is called by the name of its refinement, which is hoisted
  | sum type discriminant discriminantType variants =>
      obtain rfl := List.mem_singleton.mp h
      refine Or.inr (Or.inl ⟨hoistOf type discriminant discriminantType variants, ?_, rfl⟩)
      simp [needs]
  | custom name' types => exact Or.inl h
  | _ => simp_all [loadCheckers, loadNames]

end Schema

namespace Module

variable {base : Path} {preamble : String} {locations : Locations} {job : Job} {module : Module}

/-- Whatever an export reads when the module is loaded, the module imports it or an earlier export
provides it, as far as the exports of the module provide it at all. -/
def LoadsSafely (module : Module) : Prop :=
  ∀ before entry after, module.exports = before ++ entry :: after →
    ∀ name ∈ entry.2.code.reads, name ∈ module.exportedNames → name ∉ module.importedNames →
      name ∈ before.map Prod.fst

theorem Built.readsBehind (built : Built base preamble locations job module) :
    ReadsBehind (job.exports.map Prod.fst) [] module.exports := (loadOrder_eq_ok built.exports).2

/-- No export bears the name of a refinement that an export relies on. -/
theorem Built.key_notMem_exportedNames (built : Built base preamble locations job module)
    {entry : String × Schema} (hentry : entry ∈ module.exports) {hoist : Hoist}
    (hhoist : hoist ∈ entry.2.needs.hoists) : hoist.key ∉ module.exportedNames := by
  intro hexport
  refine (built.notMem_of_mem_exportedNames hexport).1 (built.mem_hoistedNames_iff.mpr ?_)
  refine ⟨hoist, ?_, rfl⟩
  rw [needsOf, Needs.hoists_collect, List.flatMap_map, List.mem_flatMap]
  exact ⟨entry, built.perm_exports.mem_iff.mp hentry, hhoist⟩

/-- A module loads exactly if every standard checker that one of its exports provides stands before
the exports that read it themselves. -/
theorem loadsSafely_iff (h : build base preamble locations job = .ok module) :
    module.LoadsSafely ↔
      ∀ before entry after, module.exports = before ++ entry :: after →
        ∀ checker ∈ entry.2.loadCheckers, checker.name ∈ module.exportedNames →
          checker.name ∈ before.map Prod.fst := by
  have built := build_eq_ok_iff.mp h
  constructor
  · intro hsafe before entry after heq checker hchecker hexport
    refine hsafe before entry after heq checker.name ?_ hexport
      (built.notMem_of_mem_exportedNames hexport).2
    rw [Schema.reads_code]
    exact Schema.name_mem_loadNames hchecker
  · intro hcheckers before entry after heq name hname hexport _
    rw [Schema.reads_code] at hname
    have hentry : entry ∈ module.exports := by
      rw [heq]
      exact List.mem_append_right _ List.mem_cons_self
    rcases Schema.cases_of_mem_loadNames hname with heager | ⟨hoist, hhoist, rfl⟩ |
      ⟨checker, hchecker, rfl⟩
    · have hjob := built.perm_exportedNames.mem_iff.mp hexport
      -- nothing stands before the whole list
      rcases built.readsBehind before entry after heq name heager hjob with hnone | hbefore
      · exact absurd hnone List.not_mem_nil
      · exact hbefore
    · exact absurd hexport (built.key_notMem_exportedNames hentry hhoist)
    · exact hcheckers before entry after heq checker hchecker hexport

/-- A job that exports `deNumber` behind an export that reads it. -/
def lateJob : Job where
  output := ⟨"o.js"⟩
  exports := [("deAge", .number), ("deNumber", .constant "number" (.number (.int 1)))]

/-- The module of `lateJob` provides `deNumber` itself. -/
def lateLocations : Locations where
  types := []
  imports := [("deNumber", "./o.js")]

/-- A module that is built may read an export before it stands. -/
theorem exists_build_reading_too_early :
    ∃ module, build ⟨"/p"⟩ "" lateLocations lateJob = .ok module ∧ ¬module.LoadsSafely := by
  let aspects (module : Module) := (module.importedNames, module.exportedNames,
    module.exports.map fun entry => entry.2.code.reads)
  have haspects : (build ⟨"/p"⟩ "" lateLocations lateJob).toOption.map aspects =
      some ([], ["deAge", "deNumber"], [["deNumber"], []]) := by
    decide +kernel
  obtain ⟨module, hbuild, heq⟩ := exists_eq_ok_of_map_toOption haspects
  refine ⟨module, hbuild, fun hsafe => ?_⟩
  obtain ⟨himports, heq⟩ := Prod.mk.inj heq
  obtain ⟨hexports, hreads⟩ := Prod.mk.inj heq
  -- the first export reads the second one, and nothing stands before it
  cases hlist : module.exports with
  | nil => simp [hlist] at hreads
  | cons entry after =>
      have hfirst : entry.2.code.reads = ["deNumber"] := by simp_all
      refine List.not_mem_nil (hsafe [] entry after hlist "deNumber" ?_ ?_ ?_)
      · rw [hfirst]
        exact List.mem_cons_self
      · rw [hexports]
        decide
      · rw [himports]
        exact List.not_mem_nil

/-- The condition at work: `deNumber` is a standard checker and does not stand before `deAge`. -/
theorem loadsSafely_of_lateJob :
    ∃ module, build ⟨"/p"⟩ "" lateLocations lateJob = .ok module ∧
      (module.LoadsSafely ↔
        ∀ before entry after, module.exports = before ++ entry :: after →
          ∀ checker ∈ entry.2.loadCheckers, checker.name ∈ module.exportedNames →
            checker.name ∈ before.map Prod.fst) := by
  have hpath : (build ⟨"/p"⟩ "" lateLocations lateJob).toOption.map path = some ⟨"/p/o.js"⟩ := by
    decide +kernel
  obtain ⟨module, hbuild, -⟩ := exists_eq_ok_of_map_toOption hpath
  exact ⟨module, hbuild, loadsSafely_iff hbuild⟩

end Module

end ValidatorGen
