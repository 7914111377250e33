import ValidatorGen.Proofs.Module.References
import ValidatorGen.Proofs.Schema.Sources

/-!
# When emitted code captures no name

The code of a module uses names that are bound outside of all functions: custom validators, the
standard checkers, refinements and global values.  Around such a use, functions bind parameters,
constants and fields.  A name that is bound there as well is captured: the code then calls something
else than it means to.

`build` keeps the names of fields apart from everything that the code around them relies on, and
from all that the module declares.  It asks no such thing of custom validators and exports, for
which any identifier does.  `hygienic_iff` says what that leaves open: standard checkers,
refinements and global values are never captured; a custom validator is captured if its name is
bound where its schema stands; and a global value is replaced if an export or an imported custom
validator bears its name.  A few names more that are out of bounds would do (`hygienic_of_forall`).
-/

namespace ValidatorGen.Module

open Code Schema

variable {base : Path} {preamble : String} {locations : Locations} {job : Job} {module : Module}

/-- What a name in marked code means if it means something that no function binds.  A mark stands
for a custom validator; the other names are those of standard checkers, refinements and global
values. -/
def Means (module : Module) (written meant : String) : Prop :=
  written = mark meant ∨ written = meant ∧
    (meant ∈ Checker.standard.map Checker.name ∨ meant ∈ globalNames ∨ meant ∈ module.hoistedNames)

/-- The code of a module means what it says. -/
structure Hygienic (module : Module) : Prop where
  /-- No function around a use binds a name that means something outside of all functions. -/
  uncaptured : ∀ entry ∈ module.exports, ∀ use, entry.2.Uses use →
    ∀ name, module.Means use.name name → name ∉ use.bound
  /-- No global value that is used is replaced by an import or by an export. -/
  unreplaced : ∀ entry ∈ module.exports, ∀ use, entry.2.Uses use → use.name ∈ globalNames →
    use.name ∉ module.importedNames ∧ use.name ∉ module.exportedNames

/-- A function that is needed and is no standard checker is a custom validator. -/
theorem exists_custom_of_mem_checkerNames {exports : List (String × Schema)} {name : String}
    (hneeded : name ∈ checkerNames (needsOf exports))
    (hcustom : ∀ checker ∈ Checker.standard, checker.name ≠ name) :
    ∃ entry ∈ exports, ∃ types, Within (.custom name types) entry.2 := by
  obtain ⟨checker, hchecker, rfl⟩ := List.mem_map.mp hneeded
  rw [needsOf, Needs.imports_collect, List.flatMap_map, List.mem_flatMap] at hchecker
  obtain ⟨entry, hentry, hchecker⟩ := hchecker
  obtain ⟨inner, hinner, hown⟩ := (mem_iff_within mem_imports_needs_iff _ _).mp hchecker
  have hstandard : checker ∉ Checker.standard := fun hmem => hcustom checker hmem rfl
  cases inner with
  | custom name types =>
      obtain rfl := List.mem_singleton.mp hown
      rw [Checker.name_ofName]
      exact ⟨entry, hentry, types, hinner⟩
  | object type fields optional =>
      obtain ⟨field, -, rfl⟩ := List.mem_map.mp hown
      exact absurd (by decide) hstandard
  | constant type value => cases hown
  | _ =>
      obtain rfl := List.mem_singleton.mp hown
      exact absurd (by decide) hstandard

/-- A custom validator within an export is needed. -/
theorem mem_checkerNames_of_within {exports : List (String × Schema)} {entry : String × Schema}
    (hentry : entry ∈ exports) {name : String} {types : List FlowType}
    (h : Within (.custom name types) entry.2) : name ∈ checkerNames (needsOf exports) := by
  have hneeded : Checker.ofName name ∈ entry.2.needs.imports :=
    (mem_iff_within mem_imports_needs_iff _ _).mpr ⟨_, h, List.mem_singleton_self _⟩
  rw [checkerNames, List.mem_map, needsOf, Needs.imports_collect, List.flatMap_map]
  exact ⟨_, List.mem_flatMap.mpr ⟨entry, hentry, hneeded⟩, Checker.name_ofName name⟩

namespace Built

/-- The declarations of a module bear the names of refinements. -/
theorem exists_type_of_mem_hoistedNames (built : Built base preamble locations job module)
    {name : String} (h : name ∈ module.hoistedNames) : ∃ type, name = refinementName type := by
  obtain ⟨hoist, hhoist, rfl⟩ := built.mem_hoistedNames_iff.mp h
  rw [needsOf, Needs.hoists_collect, List.flatMap_map, List.mem_flatMap] at hhoist
  obtain ⟨entry, -, hneeded⟩ := hhoist
  obtain ⟨type, discriminant, discriminantType, variants, -, rfl⟩ := mem_hoists_iff.mp hneeded
  exact ⟨type, rfl⟩

/-- No field bears a name that code relies on. -/
theorem notMem_fieldNames (built : Built base preamble locations job module)
    {entry : String × Schema} (hentry : entry ∈ job.exports) {name : String}
    (hname : name ∈ Checker.standard.map Checker.name ++ globalNames) :
    name ∉ entry.2.fieldNames := by
  intro hfield
  obtain ⟨inner, hinner, hown⟩ := mem_fieldNames_iff.mp hfield
  have hlawful := lawful_of_within hinner (built.legal entry hentry)
  have hbindable := isBindable_of_mem_ownFields hlawful name hown
  have hreserved : ∀ name ∈ Checker.standard.map Checker.name ++ globalNames,
      isBindable name = false := by
    decide
  rw [hreserved name hname] at hbindable
  cases hbindable

/-- Standard checkers, global values and refinements are bound nowhere in the code of a module. -/
theorem notMem_bound (built : Built base preamble locations job module)
    {entry : String × Schema} (hentry : entry ∈ job.exports) {use : Use}
    (huse : entry.2.Uses use) {name : String}
    (hname : name ∈ Checker.standard.map Checker.name ++ globalNames ∨
      name ∈ module.hoistedNames) : name ∉ use.bound := by
  intro hbound
  rcases mem_localNames_or_fieldNames huse name hbound with hlocal | hfield
  · rcases hname with hfixed | hhoisted
    · have hapart : ∀ name ∈ Checker.standard.map Checker.name ++ globalNames,
          name ∉ localNames := by
        decide
      exact hapart name hfixed hlocal
    · obtain ⟨type, rfl⟩ := built.exists_type_of_mem_hoistedNames hhoisted
      exact refinementName_notMem_of_forall (by decide) type hlocal
  · rcases hname with hfixed | hhoisted
    · exact built.notMem_fieldNames hentry hfixed hfield
    · exact (built.unshadowed entry hentry name hfield).2.1 hhoisted

/-- A name is not imported if it is located in the module, or not needed at all. -/
theorem notMem_importedNames_iff (built : Built base preamble locations job module)
    {name : String} : name ∉ module.importedNames ↔
      (name ∈ checkerNames (needsOf job.exports) →
        ∃ location, locations.imports.get? name = some location ∧
          Location.isOwn base location module.path = true) := by
  constructor
  · intro hforeign hneeded
    exact (built.mem_importedNames_or_isOwn hneeded).resolve_left hforeign
  · intro hown himport
    obtain ⟨hneeded, -⟩ := built.mem_importedNames_iff.mp himport
    obtain ⟨location, hlocation, hsame⟩ := hown hneeded
    exact built.notMem_importedNames_of_isOwn hlocation hsame himport

/-- Only custom validators can be captured. -/
theorem uncaptured_iff (built : Built base preamble locations job module) :
    (∀ entry ∈ module.exports, ∀ use, entry.2.Uses use →
      ∀ name, module.Means use.name name → name ∉ use.bound) ↔
      ∀ entry ∈ job.exports, ∀ bound name types,
        Under entry.2 bound (.custom name types) → name ∉ bound := by
  constructor
  · intro huncaptured entry hentry bound name types hunder
    have huse := (uses_mark_iff (built.legal entry hentry)).mpr ⟨types, hunder⟩
    exact huncaptured entry (built.perm_exports.mem_iff.mpr hentry) _ huse name (Or.inl rfl)
  · intro hcustom entry hentry use huse name hmeans
    rw [built.perm_exports.mem_iff] at hentry
    rcases hmeans with hmark | ⟨-, hname⟩
    · have hmarked : entry.2.Uses ⟨mark name, use.bound⟩ := by
        rw [← hmark]
        exact huse
      obtain ⟨types, hunder⟩ := (uses_mark_iff (built.legal entry hentry)).mp hmarked
      exact hcustom entry hentry use.bound name types hunder
    · refine built.notMem_bound hentry huse ?_
      rw [List.mem_append, or_assoc]
      exact hname

/-- A global value is replaced if an export or an imported custom validator bears its name. -/
theorem unreplaced_iff (built : Built base preamble locations job module) :
    (∀ entry ∈ module.exports, ∀ use, entry.2.Uses use → use.name ∈ globalNames →
      use.name ∉ module.importedNames ∧ use.name ∉ module.exportedNames) ↔
      ∀ entry ∈ job.exports, ∀ inner, Within inner entry.2 → ∀ name ∈ inner.ownGlobals,
        name ∉ job.exports.map Prod.fst ∧
          (name ∈ checkerNames (needsOf job.exports) →
            ∃ location, locations.imports.get? name = some location ∧
              Location.isOwn base location module.path = true) := by
  constructor
  · intro hunreplaced entry hentry inner hinner name hown
    have hglobal := mem_globalNames_of_mem_ownGlobals name hown
    obtain ⟨bound, huse⟩ :=
      (exists_uses_iff_ownGlobals (built.legal entry hentry) hglobal).mpr ⟨inner, hinner, hown⟩
    obtain ⟨himport, hexport⟩ :=
      hunreplaced entry (built.perm_exports.mem_iff.mpr hentry) _ huse hglobal
    rw [built.perm_exportedNames.mem_iff] at hexport
    exact ⟨hexport, built.notMem_importedNames_iff.mp himport⟩
  · intro hglobals entry hentry use huse hglobal
    rw [built.perm_exports.mem_iff] at hentry
    obtain ⟨inner, hinner, hown⟩ :=
      (exists_uses_iff_ownGlobals (built.legal entry hentry) hglobal).mp ⟨use.bound, huse⟩
    obtain ⟨hexport, himport⟩ := hglobals entry hentry inner hinner use.name hown
    rw [← built.perm_exportedNames.mem_iff] at hexport
    exact ⟨built.notMem_importedNames_iff.mpr himport, hexport⟩

/-- A name of a global value is imported only for a custom validator that bears it. -/
theorem exists_custom_of_mem_importedNames
    (built : Built base preamble locations job module) {name : String}
    (himport : name ∈ module.importedNames) (hglobal : name ∈ globalNames) :
    ∃ entry ∈ job.exports, ∃ types, Within (.custom name types) entry.2 := by
  obtain ⟨hneeded, -⟩ := built.mem_importedNames_iff.mp himport
  have hapart : ∀ checker ∈ Checker.standard, checker.name ∉ globalNames := by decide
  refine exists_custom_of_mem_checkerNames hneeded fun checker hchecker heq => ?_
  exact hapart checker hchecker (heq ▸ hglobal)

end Built

/-- A job with a field that is checked by a custom validator called `json`. -/
def capturingJob : Job where
  output := ⟨"o.js"⟩
  exports := [("deT", .object (.named "T") [("a", .custom "json" [])] [])]

/-- Where the names of `capturingJob` are. -/
def capturingLocations : Locations where
  types := [("T", "./t.js")]
  imports := [("json", "./v.js"), ("deField", "./r.js")]

/-- The code of a module captures nothing exactly if every custom validator stands where its name is
not bound, and no export and no custom validator of another module bears the name of a global value
that is used. -/
theorem hygienic_iff (h : build base preamble locations job = .ok module) :
    module.Hygienic ↔
      (∀ entry ∈ job.exports, ∀ bound name types,
        Under entry.2 bound (.custom name types) → name ∉ bound) ∧
      ∀ entry ∈ job.exports, ∀ inner, Within inner entry.2 → ∀ name ∈ inner.ownGlobals,
        name ∉ job.exports.map Prod.fst ∧
          (name ∈ checkerNames (needsOf job.exports) →
            ∃ location, locations.imports.get? name = some location ∧
              Location.isOwn base location module.path = true) := by
  have built := build_eq_ok_iff.mp h
  rw [← built.uncaptured_iff, ← built.unreplaced_iff]
  exact ⟨fun hygienic => ⟨hygienic.uncaptured, hygienic.unreplaced⟩,
    fun ⟨huncaptured, hunreplaced⟩ => ⟨huncaptured, hunreplaced⟩⟩

/-- Nothing is captured if every custom validator is bound by the module, and if custom validators
and exports keep away from the names that code relies on. -/
theorem hygienic_of_forall (h : build base preamble locations job = .ok module)
    (hcustoms : ∀ entry ∈ job.exports, ∀ name types, Within (.custom name types) entry.2 →
      name ∉ ["json", "sentinelValue", "x"] ++ globalNames ∧ name ∈ module.bindings)
    (hexports : ∀ entry ∈ job.exports, entry.1 ∉ globalNames) : module.Hygienic := by
  have built := build_eq_ok_iff.mp h
  constructor
  · -- nothing binds the name of a custom validator on the way to its call
    rw [built.uncaptured_iff]
    intro entry hentry bound name types hunder hbound
    obtain ⟨hfree, hbinding⟩ := hcustoms entry hentry name types hunder.within
    rcases hunder.mem_bound name hbound with hlocal | hfield
    · exact hfree (List.mem_append_left _ hlocal)
    · -- a field bears no name that the module binds
      obtain ⟨hexport, hhoisted, himported⟩ := built.unshadowed entry hentry name hfield
      rw [← built.perm_exportedNames.mem_iff] at hexport
      simp only [bindings, List.mem_append] at hbinding
      exact hbinding.elim (not_or.mpr ⟨himported, hhoisted⟩) hexport
  · intro entry hentry use huse hglobal
    constructor
    · intro himport
      obtain ⟨entry, hentry, types, hcustom⟩ :=
        built.exists_custom_of_mem_importedNames himport hglobal
      exact (hcustoms entry hentry _ types hcustom).1 (List.mem_append_right _ hglobal)
    · intro hexport
      obtain ⟨exported, hmem, heq⟩ := List.mem_map.mp hexport
      rw [← heq] at hglobal
      exact hexports exported (built.perm_exports.mem_iff.mp hmem) hglobal

/-- A module that is built may import a validator and capture its name. -/
theorem exists_build_capturing_a_name :
    ∃ module, build ⟨"/p"⟩ "" capturingLocations capturingJob = .ok module ∧
      "json" ∈ module.importedNames ∧ ¬module.Hygienic := by
  have himports : (build ⟨"/p"⟩ "" capturingLocations capturingJob).toOption.map importedNames =
      some ["deField", "json"] := by
    decide +kernel
  obtain ⟨module, hbuild, heq⟩ := exists_eq_ok_of_map_toOption himports
  refine ⟨module, hbuild, by rw [heq]; decide, fun hygienic => ?_⟩
  -- the field stands in a function whose parameter is `json`
  have hpart : (["a", "json"], .custom "json" []) ∈
      scopedParts (.object (.named "T") [("a", .custom "json" [])] []) := List.mem_cons_self
  have hstands := Under.part Under.whole hpart
  have hcustoms := (build_eq_ok_iff.mp hbuild).uncaptured_iff.mp hygienic.uncaptured
  exact hcustoms _ List.mem_cons_self _ _ _ hstands (by decide)

/-- The condition at work: `json` is bound where the field `a` stands. -/
theorem hygienic_of_capturingJob :
    ∃ module, build ⟨"/p"⟩ "" capturingLocations capturingJob = .ok module ∧
      (module.Hygienic ↔
        (∀ entry ∈ capturingJob.exports, ∀ bound name types,
          Under entry.2 bound (.custom name types) → name ∉ bound) ∧
        ∀ entry ∈ capturingJob.exports, ∀ inner, Within inner entry.2 →
          ∀ name ∈ inner.ownGlobals, name ∉ capturingJob.exports.map Prod.fst ∧
            (name ∈ checkerNames (needsOf capturingJob.exports) →
              ∃ location, capturingLocations.imports.get? name = some location ∧
                Location.isOwn ⟨"/p"⟩ location module.path = true)) := by
  have hpath : (build ⟨"/p"⟩ "" capturingLocations capturingJob).toOption.map path =
      some ⟨"/p/o.js"⟩ := by
    decide +kernel
  obtain ⟨module, hbuild, -⟩ := exists_eq_ok_of_map_toOption hpath
  exact ⟨module, hbuild, hygienic_iff hbuild⟩

end ValidatorGen.Module
