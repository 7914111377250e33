import ValidatorGen.Proofs.Module.Hygiene

/-!
# When a module binds legal names only

A name that code binds has to be an identifier, and no word of the language.  The names of a module
come from five sources: its exports, the functions and the types that it imports, its declarations,
and the parameters and constants of its code, among them the fields of objects.

Fields are kept off the words of the language, and the names of declarations end so that none of
them is one.  Exports and custom validators are only asked to be identifiers, and types are not
asked for anything.  `legalNames_iff` says what that comes to.
-/

namespace ValidatorGen.Module

open Code Schema

variable {base : Path} {preamble : String} {locations : Locations} {job : Job} {module : Module}

/-- Whether code may bind a name. -/
def Legal (name : String) : Prop := isIdentifier name = true ∧ name ∉ keywords

instance (name : String) : Decidable (Legal name) := inferInstanceAs (Decidable (_ ∧ _))

/-- The code of a schema or a refinement that it relies on binds a name: as a parameter, as a
constant, or for a field. -/
def Binds (schema : Schema) (name : String) : Prop :=
  name ∈ schema.code.binders ∨ ∃ type discriminant discriminantType variants,
    Within (.sum type discriminant discriminantType variants) schema ∧
      name ∈ (refinementOf type discriminant discriminantType variants).binders

/-- The names of the types that a module imports. -/
def importedTypeNames (module : Module) : List String := module.typeImports.flatMap Import.names

/-- Every name that a module binds is legal. -/
structure LegalNames (module : Module) : Prop where
  exports : ∀ name ∈ module.exportedNames, Legal name
  imports : ∀ name ∈ module.importedNames, Legal name
  types : ∀ name ∈ module.importedTypeNames, Legal name
  hoists : ∀ name ∈ module.hoistedNames, Legal name
  binders : ∀ entry ∈ module.exports, ∀ name, Binds entry.2 name → Legal name

/-! ## Names that are always legal -/

theorem legal_of_isBindable {name : String} (h : isBindable name = true) : Legal name := by
  rw [isBindable, Bool.and_eq_true, Bool.and_eq_true] at h
  exact ⟨h.1.1, by simpa using h.1.2⟩

theorem legal_refinementName {type : FlowType}
    (h : isIdentifier (type.baseName?.getD "") = true) : Legal (refinementName type) :=
  ⟨isIdentifier_refinementName h, refinementName_notMem_of_forall (by decide) type⟩

theorem legal_of_mem_standard : ∀ checker ∈ Checker.standard, Legal checker.name := by decide

theorem legal_of_mem_localNames : ∀ name ∈ localNames, Legal name := by decide

/-- Whatever a legal schema binds in its code is legal. -/
theorem legal_of_binds {schema : Schema} (hlegal : schema.check = .ok ()) {name : String}
    (h : Binds schema name) : Legal name := by
  have hfield {inner : Schema} (hinner : Within inner schema) (hown : name ∈ inner.ownFields) :
      Legal name :=
    legal_of_isBindable (isBindable_of_mem_ownFields (lawful_of_within hinner hlegal) name hown)
  rcases h with hcode | ⟨type, discriminant, discriminantType, variants, hsum, hrefinement⟩
  · rcases mem_localNames_or_of_mem_binders_code schema name hcode with
      hlocal | ⟨inner, hinner, hown⟩
    · exact legal_of_mem_localNames name hlocal
    · exact hfield hinner hown
  · rcases mem_localNames_or_of_mem_binders_refinementOf name hrefinement with
      hlocal | ⟨inner, hinner, hown⟩
    · exact legal_of_mem_localNames name hlocal
    · exact hfield (hinner.trans hsum) hown

namespace Built

theorem legal_hoistedNames (built : Built base preamble locations job module) :
    ∀ name ∈ module.hoistedNames, Legal name := by
  intro name hname
  obtain ⟨hoist, hhoist, rfl⟩ := built.mem_hoistedNames_iff.mp hname
  rw [needsOf, Needs.hoists_collect, List.flatMap_map, List.mem_flatMap] at hhoist
  obtain ⟨entry, hentry, hneeded⟩ := hhoist
  obtain ⟨type, discriminant, discriminantType, variants, hsum, rfl⟩ := mem_hoists_iff.mp hneeded
  exact legal_refinementName (lawful_of_within hsum (built.legal entry hentry)).1

/-! ## The other names -/

theorem legal_exportedNames_iff (built : Built base preamble locations job module) :
    (∀ name ∈ module.exportedNames, Legal name) ↔ ∀ entry ∈ job.exports, entry.1 ∉ keywords := by
  have hlegal : ∀ entry ∈ job.exports, (Legal entry.1 ↔ entry.1 ∉ keywords) :=
    fun entry hentry => and_iff_right (built.identifiers entry hentry)
  constructor
  · intro hnames entry hentry
    rw [← hlegal entry hentry]
    exact hnames _ (built.perm_exportedNames.mem_iff.mpr (List.mem_map_of_mem hentry))
  · intro hwords name hname
    obtain ⟨entry, hentry, rfl⟩ := List.mem_map.mp (built.perm_exportedNames.mem_iff.mp hname)
    exact (hlegal entry hentry).mpr (hwords entry hentry)

/-- A function that is imported is a standard checker or a custom validator. -/
theorem standard_or_custom_of_mem_importedNames
    (built : Built base preamble locations job module) {name : String}
    (himport : name ∈ module.importedNames) :
    (∃ checker ∈ Checker.standard, checker.name = name) ∨
      ∃ entry ∈ job.exports, ∃ types, Within (.custom name types) entry.2 := by
  obtain ⟨hneeded, -⟩ := built.mem_importedNames_iff.mp himport
  refine or_iff_not_imp_left.mpr fun hstandard => ?_
  exact exists_custom_of_mem_checkerNames hneeded
    fun checker hchecker heq => hstandard ⟨checker, hchecker, heq⟩

theorem isIdentifier_of_mem_importedNames (built : Built base preamble locations job module)
    {name : String} (himport : name ∈ module.importedNames) : isIdentifier name = true := by
  rcases built.standard_or_custom_of_mem_importedNames himport with
    ⟨checker, hchecker, rfl⟩ | ⟨entry, hentry, types, hcustom⟩
  · exact (legal_of_mem_standard checker hchecker).1
  · exact lawful_of_within hcustom (built.legal entry hentry)

theorem legal_importedNames_iff (built : Built base preamble locations job module) :
    (∀ name ∈ module.importedNames, Legal name) ↔
      ∀ entry ∈ job.exports, ∀ name types, Within (.custom name types) entry.2 →
        name ∈ keywords → ∃ location, locations.imports.get? name = some location ∧
          Location.isOwn base location module.path = true := by
  constructor
  · intro hnames entry hentry name types hcustom hword
    have hforeign : name ∉ module.importedNames := fun himport => (hnames name himport).2 hword
    exact built.notMem_importedNames_iff.mp hforeign (mem_checkerNames_of_within hentry hcustom)
  · intro hown name himport
    refine ⟨built.isIdentifier_of_mem_importedNames himport, fun hword => ?_⟩
    -- no standard checker is called by a word of the language
    rcases built.standard_or_custom_of_mem_importedNames himport with
      ⟨checker, hchecker, rfl⟩ | ⟨entry, hentry, types, hcustom⟩
    · exact (legal_of_mem_standard checker hchecker).2 hword
    · exact built.notMem_importedNames_iff.mpr
        (fun _ => hown entry hentry name types hcustom hword) himport

theorem legal_importedTypeNames_iff (built : Built base preamble locations job module) :
    (∀ name ∈ module.importedTypeNames, Legal name) ↔
      ∀ name ∈ typeNames (needsOf job.exports), ¬Legal name →
        ∃ location, locations.types.get? name = some location ∧
          Location.isOwn base location module.path = true := by
  have himported (name : String) : name ∈ module.importedTypeNames ↔
      name ∈ typeNames (needsOf job.exports) ∧ ∃ location,
        locations.types.get? name = some location ∧
          Location.isOwn base location module.path = false := by
    rw [importedTypeNames, built.typeImports, Surroundings.mem_imports_iff,
      Surroundings.isSome_specifier?_iff]
  constructor
  · intro hnames name hneeded hillegal
    obtain ⟨location, hlocation⟩ := Option.isSome_iff_exists.mp (built.typesLocated name hneeded)
    refine ⟨location, hlocation, ?_⟩
    by_contra hforeign
    rw [Bool.not_eq_true] at hforeign
    exact hillegal (hnames name ((himported name).mpr ⟨hneeded, location, hlocation, hforeign⟩))
  · intro hown name himport
    obtain ⟨hneeded, location, hlocation, hforeign⟩ := (himported name).mp himport
    by_contra hillegal
    obtain ⟨location', hlocation', hsame⟩ := hown name hneeded hillegal
    obtain rfl := Option.some.inj (hlocation.symm.trans hlocation')
    rw [hsame] at hforeign
    cases hforeign

end Built

/-- A job that relies on a custom validator called `class`. -/
def keywordJob : Job where
  output := ⟨"o.js"⟩
  exports := [("deA", .custom "class" [])]

/-- Where that validator is. -/
def keywordLocations : Locations where
  types := []
  imports := [("class", "./v.js")]

/-- A module binds legal names only exactly if no export bears the name of a word of the language,
nor does a custom validator of another module, and if the types of other modules have legal
names. -/
theorem legalNames_iff (h : build base preamble locations job = .ok module) :
    module.LegalNames ↔
      (∀ entry ∈ job.exports, entry.1 ∉ keywords) ∧
      (∀ entry ∈ job.exports, ∀ name types, Within (.custom name types) entry.2 →
        name ∈ keywords → ∃ location, locations.imports.get? name = some location ∧
          Location.isOwn base location module.path = true) ∧
      ∀ name ∈ typeNames (needsOf job.exports), ¬Legal name →
        ∃ location, locations.types.get? name = some location ∧
          Location.isOwn base location module.path = true := by
  have built := build_eq_ok_iff.mp h
  rw [← built.legal_exportedNames_iff, ← built.legal_importedNames_iff,
    ← built.legal_importedTypeNames_iff]
  constructor
  · intro legal
    exact ⟨legal.exports, legal.imports, legal.types⟩
  · rintro ⟨hexports, himports, htypes⟩
    exact {
      exports := hexports
      imports := himports
      types := htypes
      hoists := built.legal_hoistedNames
      binders := fun entry hentry name hbinds =>
        legal_of_binds (built.legal entry (built.perm_exports.mem_iff.mp hentry)) hbinds }

/-- A module that is built may import a validator under a word of the language. -/
theorem exists_build_importing_a_keyword :
    ∃ module, build ⟨"/p"⟩ "" keywordLocations keywordJob = .ok module ∧
      "class" ∈ module.importedNames ∧ ¬module.LegalNames := by
  have himports : (build ⟨"/p"⟩ "" keywordLocations keywordJob).toOption.map importedNames =
      some ["class"] := by
    decide +kernel
  obtain ⟨module, hbuild, heq⟩ := exists_eq_ok_of_map_toOption himports
  have hmem : "class" ∈ module.importedNames := by
    rw [heq]
    exact List.mem_singleton_self _
  refine ⟨module, hbuild, hmem, fun legal => ?_⟩
  exact absurd (legal.imports _ hmem) (by decide)

/-- The condition at work: `class` is a word of the language and located in `v.js`. -/
theorem legalNames_of_keywordJob :
    ∃ module, build ⟨"/p"⟩ "" keywordLocations keywordJob = .ok module ∧
      (module.LegalNames ↔
        (∀ entry ∈ keywordJob.exports, entry.1 ∉ keywords) ∧
        (∀ entry ∈ keywordJob.exports, ∀ name types, Within (.custom name types) entry.2 →
          name ∈ keywords → ∃ location, keywordLocations.imports.get? name = some location ∧
            Location.isOwn ⟨"/p"⟩ location module.path = true) ∧
        ∀ name ∈ typeNames (needsOf keywordJob.exports), ¬Legal name →
          ∃ location, keywordLocations.types.get? name = some location ∧
            Location.isOwn ⟨"/p"⟩ location module.path = true) := by
  have hpath : (build ⟨"/p"⟩ "" keywordLocations keywordJob).toOption.map path =
      some ⟨"/p/o.js"⟩ := by
    decide +kernel
  obtain ⟨module, hbuild, -⟩ := exists_eq_ok_of_map_toOption hpath
  exact ⟨module, hbuild, legalNames_iff hbuild⟩

end ValidatorGen.Module
