import ValidatorGen.Proofs.Module.ImportLines
import ValidatorGen.Proofs.Text.Bytes

/-!
# Which imports a module has

A module that is built imports what its exports need and other modules have, and nothing besides.
`ImportsExactly` says what that means for the imports of one kind: which name stands under which
specifier, that no name stands in two lines, and how lines and names are ordered.  It leaves no
choice (`ImportsExactly.unique`).  The text of the module holds one line for each of the imports,
first those of functions and then those of types.  A line is spelled as code has it (`Spells`) and
reads back as its import.  `build_imports_exactly` puts all of this together.

The lines are made by the specifiers of the names, so two names share a line exactly if they have
the same specifier; a specifier depends on the place that a location leads to and not on how the
location is spelled (`specifier_eq_of_sameTarget`).
-/

namespace ValidatorGen

/-! ## Locations -/

namespace Location

variable {base module : Path} {location other : String}

/-- Two relative locations lead to one place, however they are spelled. -/
def SameTarget (base : Path) (location other : String) : Prop :=
  isRelative location = true ∧ isRelative other = true ∧
    (target base location).samePlace (target base other) = true

instance : Decidable (SameTarget base location other) :=
  inferInstanceAs (Decidable (_ ∧ _ ∧ _))

theorem components_eq_of_sameTarget (h : SameTarget base location other) :
    (target base location).components = (target base other).components := of_decide_eq_true h.2.2

theorem specifier_eq_of_sameTarget (h : SameTarget base location other) :
    specifier base module location = specifier base module other := by
  rw [specifier, if_pos h.1, specifier, if_pos h.2.1, Path.relativeTo,
    components_eq_of_sameTarget h, Path.relativeTo]

example : SameTarget ⟨"/p"⟩ "./lib/.././checks.js" "./checks.js" := by decide +kernel

theorem isOwn_eq_of_sameTarget (h : SameTarget base location other) :
    isOwn base location module = isOwn base other module := by
  rw [isOwn, if_pos h.1, isOwn, if_pos h.2.1, Path.samePlace, Path.samePlace,
    components_eq_of_sameTarget h]

end Location

namespace Module

/-! ## Import lines -/

/-- A name is located in another module, and this is what a module writes to import it. -/
def Surroundings.Imported (around : Surroundings) (name specifier : String) : Prop :=
  ∃ location, around.locations.get? name = some location ∧
    Location.isOwn around.base location around.module = false ∧
      Location.specifier around.base around.module location = specifier

/-- The lines import those of the needed names that other modules have, and nothing else. -/
structure ImportsExactly (around : Surroundings) (needed : List String) (lines : List Import) :
    Prop where
  /-- Specifiers differ and ascend. -/
  specifiers : Text.Ascends (lines.map Import.specifier)
  /-- The names of a line differ and ascend. -/
  names : ∀ line ∈ lines, Text.Ascends line.names
  nonempty : ∀ line ∈ lines, line.names ≠ []
  /-- A name stands under a specifier exactly if it is needed and imported by this specifier. -/
  listed : ∀ name specifier,
    (∃ line ∈ lines, line.specifier = specifier ∧ name ∈ line.names) ↔
      name ∈ needed ∧ around.Imported name specifier
  once : ∀ name ∈ needed, ∀ specifier, around.Imported name specifier →
    ∃! line, line ∈ lines ∧ name ∈ line.names
  /-- Names whose locations lead to one place stand in one line, if they are imported at all. -/
  together : ∀ name ∈ needed, ∀ other ∈ needed, ∀ location location',
    around.locations.get? name = some location → around.locations.get? other = some location' →
      Location.SameTarget around.base location location' →
        ∀ line ∈ lines, name ∈ line.names ↔ other ∈ line.names

theorem eq_of_specifier_of_names {line line' : Import}
    (hspecifier : line.specifier = line'.specifier) (hnames : line.names = line'.names) :
    line = line' := by
  cases line; cases line'
  cases hspecifier; cases hnames
  rfl

namespace ImportsExactly

variable {around : Surroundings} {needed : List String} {lines others : List Import}

theorem mem_names_iff (h : ImportsExactly around needed lines) {line : Import}
    (hline : line ∈ lines) {name : String} :
    name ∈ line.names ↔ name ∈ needed ∧ around.Imported name line.specifier := by
  rw [← h.listed]
  constructor
  · intro hname
    exact ⟨line, hline, rfl, hname⟩
  · rintro ⟨other, hother, hspecifier, hname⟩
    exact List.inj_on_of_nodup_map h.specifiers.nodup hother hline hspecifier ▸ hname

theorem mem_specifiers_iff (h : ImportsExactly around needed lines) {specifier : String} :
    specifier ∈ lines.map Import.specifier ↔ ∃ name ∈ needed, around.Imported name specifier := by
  rw [List.mem_map]
  constructor
  · rintro ⟨line, hline, rfl⟩
    obtain ⟨name, hname⟩ := List.exists_mem_of_ne_nil _ (h.nonempty line hline)
    exact ⟨name, (h.mem_names_iff hline).mp hname⟩
  · rintro ⟨name, hname⟩
    obtain ⟨line, hline, hspecifier, -⟩ := (h.listed name specifier).mpr hname
    exact ⟨line, hline, hspecifier⟩

/-- There is only one way to import exactly the needed names. -/
theorem unique (h : ImportsExactly around needed lines)
    (hothers : ImportsExactly around needed others) : lines = others := by
  have hspecifiers : lines.map Import.specifier = others.map Import.specifier :=
    h.specifiers.ext hothers.specifiers fun _ =>
      h.mem_specifiers_iff.trans hothers.mem_specifiers_iff.symm
  -- the lines come in the same order, so they are compared position by position
  have hlength : lines.length = others.length := by simpa using congrArg List.length hspecifiers
  refine List.ext_getElem hlength fun index hindex hindex' => ?_
  have hspecifier : lines[index].specifier = others[index].specifier := by
    simpa [hindex, hindex'] using congrArg (·[index]?) hspecifiers
  have hline := List.getElem_mem hindex
  have hline' := List.getElem_mem hindex'
  refine eq_of_specifier_of_names hspecifier ((h.names _ hline).ext (hothers.names _ hline') ?_)
  intro name
  rw [h.mem_names_iff hline, hothers.mem_names_iff hline', hspecifier]

end ImportsExactly

namespace Surroundings

variable {around : Surroundings} {names : List String}

theorem specifier?_eq_some_iff {name specifier : String} :
    around.specifier? name = some specifier ↔ around.Imported name specifier := by
  unfold specifier? Imported
  cases around.locations.get? name with
  | none => simp
  | some location =>
      cases hown : Location.isOwn around.base location around.module <;> simp [hown]

/-- A line belongs to a specifier that some name has, and it holds all names that have it. -/
theorem mem_imports_iff_line {line : Import} : line ∈ around.imports names ↔
    (∃ name ∈ names, around.specifier? name = some line.specifier) ∧
      line.names =
        Text.ascending (names.filter (around.specifier? · = some line.specifier)) := by
  simp only [imports, List.mem_map, Text.mem_ascending, List.mem_filterMap]
  constructor
  · rintro ⟨specifier, hname, rfl⟩
    exact ⟨hname, rfl⟩
  · rintro ⟨hname, hnames⟩
    exact ⟨line.specifier, hname, by rw [← hnames]⟩

theorem mem_line_iff {line : Import} (h : line ∈ around.imports names) {name : String} :
    name ∈ line.names ↔ name ∈ names ∧ around.specifier? name = some line.specifier := by
  rw [(mem_imports_iff_line.mp h).2, Text.mem_ascending, List.mem_filter, decide_eq_true_eq]

theorem exists_line {name specifier : String} (hname : name ∈ names)
    (hspecifier : around.specifier? name = some specifier) :
    ∃ line ∈ around.imports names, line.specifier = specifier ∧ name ∈ line.names := by
  let line : Import :=
    ⟨specifier, Text.ascending (names.filter (around.specifier? · = some specifier))⟩
  have hline : line ∈ around.imports names :=
    mem_imports_iff_line.mpr ⟨⟨name, hname, hspecifier⟩, rfl⟩
  exact ⟨line, hline, rfl, (mem_line_iff hline).mpr ⟨hname, hspecifier⟩⟩

theorem line_eq_of_mem {name : String} {line line' : Import} (hline : line ∈ around.imports names)
    (hline' : line' ∈ around.imports names) (hname : name ∈ line.names)
    (hname' : name ∈ line'.names) : line = line' := by
  have hspecifier : line.specifier = line'.specifier := Option.some.inj
    (((mem_line_iff hline).mp hname).2.symm.trans ((mem_line_iff hline').mp hname').2)
  have hnames : line.names = line'.names := by
    rw [(mem_imports_iff_line.mp hline).2, (mem_imports_iff_line.mp hline').2, hspecifier]
  exact eq_of_specifier_of_names hspecifier hnames

theorem specifier?_eq_of_sameTarget {name other location location' : String}
    (hlocation : around.locations.get? name = some location)
    (hlocation' : around.locations.get? other = some location')
    (hsame : Location.SameTarget around.base location location') :
    around.specifier? name = around.specifier? other := by
  unfold specifier?
  rw [hlocation, hlocation']
  dsimp only
  rw [Location.isOwn_eq_of_sameTarget hsame, Location.specifier_eq_of_sameTarget hsame]

theorem importsExactly_imports (around : Surroundings) (names : List String) :
    ImportsExactly around names (around.imports names) where
  specifiers := by
    have hmap : (around.imports names).map Import.specifier =
        Text.ascending (names.filterMap around.specifier?) := by
      rw [imports, List.map_map]
      exact List.map_id _
    rw [hmap]
    exact Text.ascends_ascending _
  names line hline := by
    rw [(mem_imports_iff_line.mp hline).2]
    exact Text.ascends_ascending _
  nonempty line hline := by
    obtain ⟨name, hname, hspecifier⟩ := (mem_imports_iff_line.mp hline).1
    exact List.ne_nil_of_mem ((mem_line_iff hline).mpr ⟨hname, hspecifier⟩)
  listed name specifier := by
    rw [← specifier?_eq_some_iff]
    constructor
    · rintro ⟨line, hline, rfl, hname⟩
      exact (mem_line_iff hline).mp hname
    · rintro ⟨hname, hspecifier⟩
      exact exists_line hname hspecifier
  once name hname specifier himported := by
    obtain ⟨line, hline, -, hmem⟩ := exists_line hname (specifier?_eq_some_iff.mpr himported)
    exact ⟨line, ⟨hline, hmem⟩, fun other hother => line_eq_of_mem hother.1 hline hother.2 hmem⟩
  together name hname other hother location location' hlocation hlocation' hsame line hline := by
    rw [mem_line_iff hline, mem_line_iff hline,
      specifier?_eq_of_sameTarget hlocation hlocation' hsame, and_iff_right hname,
      and_iff_right hother]

end Surroundings

/-! ## Modules -/

variable {base : Path} {preamble : String} {locations : Locations} {job : Job} {module : Module}

/-- What the text of a module says about its imports: one line for each of them, those of functions
first, between the preamble and the rest.  The lines are read back as the imports that they are
written for, those of types as long as their names can be told apart. -/
def WritesImports (module : Module) : Prop :=
  ∃ lines typeLines : List String,
    List.Forall₂ (Spells "import") module.imports lines ∧
    List.Forall₂ (Spells "import type") module.typeImports typeLines ∧
    (lines ++ typeLines ≠ [] → module.text =
      module.opening ++ "\n".intercalate (lines ++ typeLines) ++ module.closing) ∧
    (lines ++ typeLines).filterMap (readImport? "import") = module.imports ∧
    ((∀ line ∈ module.typeImports, ∀ name ∈ line.names, Separable name) →
      (lines ++ typeLines).filterMap (readImport? "import type") = module.typeImports)

namespace Built

/-- The lines of functions can be read, because functions are called by identifiers. -/
theorem readable_imports (built : Built base preamble locations job module) :
    ∀ line ∈ module.imports, Readable line := by
  intro line hline
  have hline' := hline
  rw [built.imports] at hline'
  refine ⟨(Surroundings.importsExactly_imports _ _).nonempty line hline', fun name hname => ?_⟩
  exact separable_of_isIdentifier (built.isIdentifier_of_mem_importedNames
    (List.mem_flatMap.mpr ⟨line, hline, hname⟩))

theorem readable_typeImports (built : Built base preamble locations job module)
    (h : ∀ line ∈ module.typeImports, ∀ name ∈ line.names, Separable name) :
    ∀ line ∈ module.typeImports, Readable line := by
  intro line hline
  refine ⟨?_, h line hline⟩
  rw [built.typeImports] at hline
  exact (Surroundings.importsExactly_imports _ _).nonempty line hline

theorem writesImports (built : Built base preamble locations job module) :
    module.WritesImports := by
  have hspelled (keyword : String) (lines : List Import) :
      List.Forall₂ (Spells keyword) lines (lines.map (importLine keyword)) :=
    List.forall₂_map_right_iff.mpr (List.forall₂_same.mpr fun line _ =>
      spells_importLine keyword line)
  exact ⟨_, _, hspelled "import" module.imports, hspelled "import type" module.typeImports,
    text_eq_of_importLines, readImports_importLines built.readable_imports,
    fun h => readTypeImports_importLines (built.readable_typeImports h)⟩

end Built

/-- A module that is built imports exactly the functions and the types that its exports need and
other modules have, and its text holds exactly the lines for that. -/
theorem build_imports_exactly (h : build base preamble locations job = .ok module) :
    ImportsExactly ⟨base, outputPath base job.output, locations.imports⟩
      (checkerNames (needsOf job.exports)) module.imports ∧
    ImportsExactly ⟨base, outputPath base job.output, locations.types⟩
      (typeNames (needsOf job.exports)) module.typeImports ∧
    module.WritesImports := by
  have built := build_eq_ok_iff.mp h
  refine ⟨?_, ?_, built.writesImports⟩
  · rw [built.imports, built.path]
    exact Surroundings.importsExactly_imports _ _
  · rw [built.typeImports, built.path]
    exact Surroundings.importsExactly_imports _ _

/-- A job that needs `deA` and `Shape` several times, two functions of one module whose locations
are spelled differently, a function of its own module and types that are never imported. -/
def importingJob : Job where
  output := ⟨"out/./o.js"⟩
  exports := [("deAll", .object (.named "Shape")
      [("first", .custom "deB" [.named "Shape"]), ("second", .custom "deA" [.named "Object"]),
        ("third", .custom "deOwn" [.applied "Array" [.named "mixed"]])] []),
    ("deSome", .list (.custom "deA" [.named "Shape", .named "$Keys"]))]

/-- Where the names of `importingJob` are. -/
def importingLocations : Locations where
  types := [("Shape", "../shapes.js")]
  imports := [("deA", "./lib/../checks.js"), ("deB", "./checks.js"), ("deOwn", "./out/o.js"),
    ("deField", "runtime"), ("deList", "runtime")]

/-- What is imported, and the lines that say so. -/
theorem importingJob_imports_exactly : ∃ module,
    build ⟨"/p"⟩ "// checks" importingLocations importingJob = .ok module ∧
    module.imports = [⟨"../checks.js", ["deA", "deB"]⟩, ⟨"runtime", ["deField", "deList"]⟩] ∧
    module.typeImports = [⟨"../../shapes.js", ["Shape"]⟩] ∧
    module.text = "// checks\n\nimport \x7b deA, deB \x7d from '../checks.js'\n" ++
      "import \x7b deField, deList \x7d from 'runtime'\n" ++
      "import type \x7b Shape \x7d from '../../shapes.js'" ++ module.closing ∧
    ImportsExactly ⟨⟨"/p"⟩, outputPath ⟨"/p"⟩ importingJob.output, importingLocations.imports⟩
      (checkerNames (needsOf importingJob.exports)) module.imports ∧
    ImportsExactly ⟨⟨"/p"⟩, outputPath ⟨"/p"⟩ importingJob.output, importingLocations.types⟩
      (typeNames (needsOf importingJob.exports)) module.typeImports ∧
    module.WritesImports := by
  have hlines : (build ⟨"/p"⟩ "// checks" importingLocations importingJob).toOption.map
      (fun module => (module.imports, module.typeImports, module.opening)) =
        some ([⟨"../checks.js", ["deA", "deB"]⟩, ⟨"runtime", ["deField", "deList"]⟩],
          [⟨"../../shapes.js", ["Shape"]⟩], "// checks\n\n") := by
    decide +kernel
  obtain ⟨module, hbuild, heq⟩ := exists_eq_ok_of_map_toOption hlines
  obtain ⟨himports, hrest⟩ := Prod.mk.inj heq
  obtain ⟨htypeImports, hopening⟩ := Prod.mk.inj hrest
  have hsome : module.importLines ≠ [] := by simp [importLines, himports]
  have htext : module.opening ++ "\n".intercalate module.importLines =
      "// checks\n\nimport \x7b deA, deB \x7d from '../checks.js'\n" ++
        "import \x7b deField, deList \x7d from 'runtime'\n" ++
        "import type \x7b Shape \x7d from '../../shapes.js'" := by
    rw [hopening, importLines, himports, htypeImports]
    decide +kernel
  -- the rest of the text is long, so only its beginning is evaluated
  obtain ⟨hfunctions, htypes, hwrites⟩ := build_imports_exactly hbuild
  exact ⟨module, hbuild, himports, htypeImports, by rw [text_eq_of_importLines hsome, htext],
    hfunctions, htypes, hwrites⟩

end Module

end ValidatorGen
