import ValidatorGen.Proofs.Module.Imports
import ValidatorGen.Proofs.Module.Location
import ValidatorGen.Proofs.Path.Moved

/-!
# The spelling of the base directory

A base directory may be given from the directory that a program runs in, or from the root.  Paths
are looked at as they are written, so the names of the directories above the base are known in the
second case only, and a module may have different texts.  `text_eq_iff_allAside` says when: it has
the same text in both cases exactly if every location that it uses lies aside.

A location does not lie aside if the module lies further up than the location; then the specifier
that is written seen from the directory misses its target.  And it does not if it lies further up
than the module and leads back down to where it came from; then the specifier takes a longer way.
`exists_builds_with_different_texts` has a build for either case.

## Strategy

Where a location lies aside, nothing that a build asks about it depends on the base directory
(`isOwn_eq`, `specifier_eq`), so the modules are the same but for their paths.  Where it does not,
the two specifiers lead up by different numbers of levels (`exists_way_of_not_aside`).  The
specifiers are texts, and their walks are read back from them (`walk_specifier_join`,
`ups_lt_walk_specifier`); that asks for names without backslashes, which a specifier writes as
slashes.  The text of a module tells its imports (`imports_eq_of_text_eq`), and so the specifiers.
-/

namespace ValidatorGen.Location

open ValidatorGen.Path

variable {directory base output path : Path} {location : String}

theorem isAbsolute_of_isRelative (h : isRelative location = true) :
    (Path.mk location).isAbsolute = false := by
  rw [Bool.eq_false_iff, ne_eq, isAbsolute_iff]
  rintro ⟨rest, hrest⟩
  have hchars : location.toList = '/' :: rest := hrest
  rw [isRelative, hchars] at h
  cases h

/-- A place below the root is left by as many levels as it has names above it. -/
theorem ups_le_of_join (hbase : base.isAbsolute = false) (hpath : path.isAbsolute = false)
    (h : ((directory.join base).join path).walk.ups = 0) :
    (base.join path).walk.ups ≤ directory.walk.names.length := by
  rw [walk_join_join hbase hpath, Walk.followed] at h
  dsimp only at h
  omega

/-! ## Places from two directories -/

theorem components_normalize_join (hbase : base.isAbsolute = false)
    (hpath : path.isAbsolute = false) :
    (base.join path).normalize.components = (base.join path).walk.components :=
  components_normalize (by rw [isAbsolute_join hpath, hbase])

theorem isAbsolute_join_join (hdirectory : directory.isAbsolute = true) (base path : Path) :
    ((directory.join base).join path).isAbsolute = true :=
  isAbsolute_join_of_isAbsolute (isAbsolute_join_of_isAbsolute hdirectory base) path

theorem names_walk_join_join (hbase : base.isAbsolute = false) (hpath : path.isAbsolute = false) :
    ((directory.join base).join path).walk.names =
      below directory.walk.names (base.join path).walk := by
  rw [walk_join_join hbase hpath]
  rfl

theorem components_normalize_join_join (hdirectory : directory.isAbsolute = true)
    (hbase : base.isAbsolute = false) (hpath : path.isAbsolute = false) :
    ((directory.join base).join path).normalize.components =
      .root :: (below directory.walk.names (base.join path).walk).map .normal := by
  rw [components_normalize_of_isAbsolute (isAbsolute_join_join hdirectory base path),
    names_walk_join_join hbase hpath]

/-- The directory of a module is where its walk leads without the last name. -/
theorem components_directory_outputPath (hbase : base.isAbsolute = false)
    (houtput : output.isAbsolute = false) (hnamed : (base.join output).walk.names ≠ []) :
    (Module.outputPath base output).directory.components =
      (base.join output).walk.parent.components := by
  have hsteps : ∀ component ∈ (base.join output).walk.components, component.IsStep :=
    isStep_of_mem_walk
  rw [Module.outputPath, normalize_eq (by rw [isAbsolute_join houtput, hbase]),
    directory_ofComponents hnamed hsteps, components_ofComponents (isStep_parent hsteps)]

theorem components_directory_outputPath_join (hdirectory : directory.isAbsolute = true)
    (hbase : base.isAbsolute = false) (houtput : output.isAbsolute = false)
    (hnamed : (base.join output).walk.names ≠ []) :
    (Module.outputPath (directory.join base) output).directory.components =
      .root :: (below directory.walk.names (base.join output).walk.parent).map .normal := by
  have hsteps : ∀ component ∈ ((directory.join base).join output).walk.names.map
      Component.normal, component.IsStep := isStep_of_mem_names
  have hnames : ((directory.join base).join output).walk.names =
      below directory.walk.names (base.join output).walk := names_walk_join_join hbase houtput
  have hne : ((directory.join base).join output).walk.names ≠ [] := by
    rw [hnames]
    exact List.append_ne_nil_of_right_ne_nil _ hnamed
  rw [Module.outputPath, normalize_eq_of_isAbsolute (isAbsolute_join_join hdirectory base output),
    Path.directory, parent?_ofComponents_root hne hsteps, Option.getD_some,
    components_ofComponents_root (isStep_dropLast hsteps), hnames, below_parent hnamed]

end ValidatorGen.Location

namespace ValidatorGen.Module

open ValidatorGen.Path

/-! ## Movable jobs -/

/-- Whether a job has to know where something is. -/
def RefersTo (locations : Locations) (job : Job) (location : String) : Prop :=
  (∃ name ∈ checkerNames (needsOf job.exports), locations.imports.get? name = some location) ∨
    ∃ name ∈ typeNames (needsOf job.exports), locations.types.get? name = some location

/-- A job whose base directory is given from a directory, and can be given from the root as well.
The module has a name, and all locations that it uses are relative and lie below the root. -/
structure Movable (directory base : Path) (locations : Locations) (job : Job) : Prop where
  rooted : directory.isAbsolute = true
  baseRelative : base.isAbsolute = false
  outputRelative : job.output.isAbsolute = false
  named : (base.join job.output).walk.names ≠ []
  relative : ∀ location, RefersTo locations job location → Location.isRelative location = true
  belowRoot : ∀ location, RefersTo locations job location →
    ((directory.join base).join ⟨location⟩).walk.ups = 0

/-- Seen from a directory, each location that a module uses lies on the level of the module, or
further up without being reached by coming back down. -/
def AllAside (directory base : Path) (locations : Locations) (job : Job) : Prop :=
  ∀ location, RefersTo locations job location →
    Aside directory.walk.names (base.join job.output).walk (base.join ⟨location⟩).walk

/-- Specifiers can be told from one another in the text of a module: nothing that becomes part of
them holds a backslash, and the names of types can be told apart, too. -/
structure Traceable (directory base : Path) (locations : Locations) (job : Job) : Prop where
  directory : '\\' ∉ directory.text.toList
  base : '\\' ∉ base.text.toList
  locations : ∀ location, RefersTo locations job location → '\\' ∉ location.toList
  types : ∀ name ∈ typeNames (needsOf job.exports), Separable name

variable {directory base : Path} {preamble : String} {locations : Locations} {job : Job}
  {module moved : Module} {location : String}

theorem Movable.ups_le (movable : Movable directory base locations job)
    (hused : RefersTo locations job location) :
    (base.join ⟨location⟩).walk.ups ≤ directory.walk.names.length :=
  Location.ups_le_of_join movable.baseRelative
    (Location.isAbsolute_of_isRelative (movable.relative location hused))
    (movable.belowRoot location hused)

theorem Movable.isOwn_eq (movable : Movable directory base locations job)
    (haside : AllAside directory base locations job) (hused : RefersTo locations job location) :
    Location.isOwn (directory.join base) location (outputPath (directory.join base) job.output) =
      Location.isOwn base location (outputPath base job.output) := by
  have hlocation := movable.relative location hused
  have habsolute := Location.isAbsolute_of_isRelative hlocation
  rw [Location.isOwn, Location.isOwn, if_pos hlocation, if_pos hlocation]
  exact samePlace_eq_of_aside (haside location hused) (movable.ups_le hused)
    (Location.components_normalize_join movable.baseRelative habsolute)
    (Location.components_normalize_join movable.baseRelative movable.outputRelative)
    (Location.components_normalize_join_join movable.rooted movable.baseRelative habsolute)
    (Location.components_normalize_join_join movable.rooted movable.baseRelative
      movable.outputRelative)

theorem Movable.specifier_eq (movable : Movable directory base locations job)
    (haside : AllAside directory base locations job) (hused : RefersTo locations job location) :
    Location.specifier (directory.join base) (outputPath (directory.join base) job.output)
        location =
      Location.specifier base (outputPath base job.output) location := by
  have hlocation := movable.relative location hused
  have habsolute := Location.isAbsolute_of_isRelative hlocation
  -- the directory of the module lies on the level of the module
  have hway := relativeTo_eq_of_aside (haside location hused).parent (movable.ups_le hused)
    (Location.components_normalize_join movable.baseRelative habsolute)
    (Location.components_directory_outputPath movable.baseRelative movable.outputRelative
      movable.named)
    (Location.components_normalize_join_join movable.rooted movable.baseRelative habsolute)
    (Location.components_directory_outputPath_join movable.rooted movable.baseRelative
      movable.outputRelative movable.named)
  rw [Location.specifier, Location.specifier, if_pos hlocation, if_pos hlocation, Location.target,
    Location.target, hway]

theorem Surroundings.specifier?_congr {base other path otherPath : Path} {table : Table String}
    {name : String} (h : ∀ location, table.get? name = some location →
      Location.isOwn other location otherPath = Location.isOwn base location path ∧
        Location.specifier other otherPath location = Location.specifier base path location) :
    (Surroundings.mk other otherPath table).specifier? name =
      (Surroundings.mk base path table).specifier? name := by
  rw [specifier?, specifier?]
  dsimp only
  cases hlocation : table.get? name with
  | none => rfl
  | some location =>
      obtain ⟨hown, hspecifier⟩ := h location hlocation
      dsimp only
      rw [hown, hspecifier]

theorem Surroundings.imports_congr {around other : Surroundings} {names : List String}
    (h : ∀ name ∈ names, around.specifier? name = other.specifier? name) :
    around.imports names = other.imports names := by
  rw [imports, imports, List.filterMap_congr h]
  apply List.map_congr_left
  intro specifier _
  congr 2
  apply List.filter_congr
  intro name hname
  rw [h name hname]

theorem Movable.imports_eq (movable : Movable directory base locations job)
    (haside : AllAside directory base locations job) {table : Table String} {names : List String}
    (hused : ∀ name ∈ names, ∀ location, table.get? name = some location →
      RefersTo locations job location) :
    Surroundings.imports ⟨directory.join base, outputPath (directory.join base) job.output, table⟩
        names =
      Surroundings.imports ⟨base, outputPath base job.output, table⟩ names := by
  apply Surroundings.imports_congr
  intro name hname
  apply Surroundings.specifier?_congr
  intro location hlocation
  have hlocation := hused name hname location hlocation
  exact ⟨movable.isOwn_eq haside hlocation, movable.specifier_eq haside hlocation⟩

/-- The base directory matters for the path of a module and for its imports only. -/
theorem Built.of_imports_eq {other path : Path} (built : Built base preamble locations job module)
    (hpath : path = outputPath other job.output)
    (himports : Surroundings.imports ⟨other, path, locations.imports⟩
        (checkerNames (needsOf job.exports)) =
      Surroundings.imports ⟨base, module.path, locations.imports⟩
        (checkerNames (needsOf job.exports)))
    (htypes : Surroundings.imports ⟨other, path, locations.types⟩
        (typeNames (needsOf job.exports)) =
      Surroundings.imports ⟨base, module.path, locations.types⟩
        (typeNames (needsOf job.exports))) :
    Built other preamble locations job { module with path := path } where
  path := hpath
  preamble := built.preamble
  legal := built.legal
  located := built.located
  typesLocated := built.typesLocated
  imports := built.imports.trans himports.symm
  typeImports := built.typeImports.trans htypes.symm
  hoists := built.hoists
  identifiers := built.identifiers
  distinct := built.distinct
  fresh := built.fresh
  unshadowed := built.unshadowed
  exports := built.exports

/-- A module that is built from a base directory as it is given from some directory is built from
the root as well, and differs in its path alone. -/
theorem Movable.built (movable : Movable directory base locations job)
    (haside : AllAside directory base locations job)
    (built : Built base preamble locations job module) :
    Built (directory.join base) preamble locations job
      { module with path := outputPath (directory.join base) job.output } := by
  apply built.of_imports_eq rfl
  · rw [built.path]
    exact movable.imports_eq haside fun name hname location hlocation =>
      Or.inl ⟨name, hname, hlocation⟩
  · rw [built.path]
    exact movable.imports_eq haside fun name hname location hlocation =>
      Or.inr ⟨name, hname, hlocation⟩

/-! ## Locations that do not lie aside -/

theorem Traceable.join (traceable : Traceable directory base locations job) :
    '\\' ∉ (directory.join base).text.toList := by
  intro hmem
  rcases mem_text_of_mem_join hmem with hslash | hmem | hmem
  · exact absurd hslash (by decide)
  · exact traceable.directory hmem
  · exact traceable.base hmem

/-- Seen from the root, a specifier is read back as the way between two places below the root. -/
theorem Movable.walk_specifier_join (movable : Movable directory base locations job)
    (traceable : Traceable directory base locations job)
    (hused : RefersTo locations job location) :
    (Path.mk (Location.specifier (directory.join base) (outputPath (directory.join base) job.output)
      location)).walk =
        wayTo (below directory.walk.names (base.join ⟨location⟩).walk)
          (below directory.walk.names (base.join job.output).walk.parent) := by
  have hlocation := movable.relative location hused
  have habsolute := Location.isAbsolute_of_isRelative hlocation
  have hsteps : ∀ component ∈ ((directory.join base).join ⟨location⟩).walk.names.map
      Component.normal, component.IsStep := isStep_of_mem_names
  have hclear := Location.backslash_notMem_names traceable.join
    (traceable.locations location hused)
  rw [Location.names_walk_join_join movable.baseRelative habsolute] at hsteps hclear
  rw [Location.specifier_of_components hlocation
    (Location.components_normalize_join_join movable.rooted movable.baseRelative habsolute)
    (Location.components_directory_outputPath_join movable.rooted movable.baseRelative
      movable.outputRelative movable.named)]
  exact Location.walk_ofRelativePath_wayTo hsteps hclear

/-- Seen from the directory, the specifier of a location that does not lie aside leads further
up. -/
theorem Movable.ups_lt_walk_specifier (movable : Movable directory base locations job)
    (traceable : Traceable directory base locations job) (hused : RefersTo locations job location)
    (h : ¬Aside directory.walk.names (base.join job.output).walk (base.join ⟨location⟩).walk) :
    (wayTo (below directory.walk.names (base.join ⟨location⟩).walk)
        (below directory.walk.names (base.join job.output).walk.parent)).ups <
      (Path.mk (Location.specifier base (outputPath base job.output) location)).walk.ups := by
  have hlocation := movable.relative location hused
  have haway : ¬Aside directory.walk.names (base.join job.output).walk.parent
      (base.join ⟨location⟩).walk := h
  obtain ⟨way, hway, hnames, hups⟩ := exists_way_of_not_aside haway (movable.ups_le hused)
    (Location.components_normalize_join movable.baseRelative
      (Location.isAbsolute_of_isRelative hlocation))
    (Location.components_directory_outputPath movable.baseRelative movable.outputRelative
      movable.named)
  have hseen : (base.join ⟨location⟩).walk.names.map Component.normal =
      way.names.map Component.normal := by rw [hnames]
  have hclear := Location.backslash_notMem_names traceable.base (traceable.locations location hused)
  rw [← hnames] at hclear
  rw [Location.specifier, if_pos hlocation, Location.target, hway,
    Location.walk_ofRelativePath_ofComponents (hseen ▸ isStep_of_mem_names) hclear]
  exact hups

/-- A location that does not lie aside has two specifiers, which lead up by different numbers of
levels. -/
theorem Movable.specifier_ne (movable : Movable directory base locations job)
    (traceable : Traceable directory base locations job) (hused : RefersTo locations job location)
    (h : ¬Aside directory.walk.names (base.join job.output).walk (base.join ⟨location⟩).walk) :
    Location.specifier (directory.join base) (outputPath (directory.join base) job.output)
        location ≠
      Location.specifier base (outputPath base job.output) location := by
  intro heq
  have hups := movable.ups_lt_walk_specifier traceable hused h
  rw [← heq, movable.walk_specifier_join traceable hused] at hups
  exact Nat.lt_irrefl _ hups

theorem Movable.isOwn_eq_false (movable : Movable directory base locations job)
    (hused : RefersTo locations job location)
    (h : ¬Aside directory.walk.names (base.join job.output).walk (base.join ⟨location⟩).walk) :
    Location.isOwn base location (outputPath base job.output) = false := by
  have hlocation := movable.relative location hused
  have habsolute := Location.isAbsolute_of_isRelative hlocation
  rw [Location.isOwn, if_pos hlocation, Path.samePlace, decide_eq_false_iff_not, Location.target,
    outputPath, Location.components_normalize_join movable.baseRelative habsolute,
    Location.components_normalize_join movable.baseRelative movable.outputRelative]
  intro heq
  exact h (Or.inl (congrArg Walk.ups (Walk.components_injective heq)).symm)

/-- A name that does not lie aside has another specifier seen from the root, or none. -/
theorem Movable.specifier?_ne (movable : Movable directory base locations job)
    (traceable : Traceable directory base locations job) (hused : RefersTo locations job location)
    (h : ¬Aside directory.walk.names (base.join job.output).walk (base.join ⟨location⟩).walk)
    {table : Table String} {name : String} (hname : table.get? name = some location) :
    ∃ specifier,
      (Surroundings.mk base (outputPath base job.output) table).specifier? name =
        some specifier ∧
      (Surroundings.mk (directory.join base) (outputPath (directory.join base) job.output)
        table).specifier? name ≠ some specifier := by
  have hne := movable.specifier_ne traceable hused h
  refine ⟨Location.specifier base (outputPath base job.output) location, ?_, ?_⟩
  · rw [Surroundings.specifier?_eq_some_iff]
    exact ⟨location, hname, movable.isOwn_eq_false hused h, rfl⟩
  · rw [ne_eq, Surroundings.specifier?_eq_some_iff]
    rintro ⟨other, hother, -, hspecifier⟩
    obtain rfl := Option.some.inj (hname.symm.trans hother)
    exact hne hspecifier

/-- Modules with the same imports have the same specifiers for them. -/
theorem Surroundings.specifier?_eq_of_imports_eq {around other : Surroundings}
    {names : List String} {name specifier : String}
    (h : other.imports names = around.imports names) (hname : name ∈ names)
    (hspecifier : around.specifier? name = some specifier) :
    other.specifier? name = some specifier := by
  obtain ⟨line, hline, rfl, hmem⟩ := exists_line hname hspecifier
  rw [← h] at hline
  exact ((mem_line_iff hline).mp hmem).2

/-- If the imports are the same, all locations lie aside. -/
theorem Movable.allAside_of_imports_eq (movable : Movable directory base locations job)
    (traceable : Traceable directory base locations job)
    (built : Built base preamble locations job module)
    (hbuilt : Built (directory.join base) preamble locations job moved)
    (himports : moved.imports = module.imports)
    (htypes : moved.typeImports = module.typeImports) :
    AllAside directory base locations job := by
  intro location hused
  by_contra haway
  rw [hbuilt.imports, built.imports, hbuilt.path, built.path] at himports
  rw [hbuilt.typeImports, built.typeImports, hbuilt.path, built.path] at htypes
  rcases hused with ⟨name, hname, hlocation⟩ | ⟨name, hname, hlocation⟩
  · obtain ⟨specifier, hspecifier, hne⟩ := movable.specifier?_ne traceable
      (Or.inl ⟨name, hname, hlocation⟩) haway hlocation
    exact hne (Surroundings.specifier?_eq_of_imports_eq himports hname hspecifier)
  · obtain ⟨specifier, hspecifier, hne⟩ := movable.specifier?_ne traceable
      (Or.inr ⟨name, hname, hlocation⟩) haway hlocation
    exact hne (Surroundings.specifier?_eq_of_imports_eq htypes hname hspecifier)

theorem Traceable.readable (traceable : Traceable directory base locations job)
    {other : Path} (built : Built other preamble locations job module) :
    ∀ line ∈ module.imports ++ module.typeImports, Readable line := by
  refine List.forall_mem_append.mpr ⟨built.readable_imports,
    built.readable_typeImports fun line hline name hname => ?_⟩
  rw [built.typeImports] at hline
  exact traceable.types name ((Surroundings.mem_line_iff hline).mp hname).1

/-- If the texts are the same, all locations lie aside. -/
theorem Movable.allAside_of_text_eq (movable : Movable directory base locations job)
    (traceable : Traceable directory base locations job)
    (built : Built base preamble locations job module)
    (hbuilt : Built (directory.join base) preamble locations job moved)
    (htext : moved.text = module.text) : AllAside directory base locations job := by
  have hhoists := Except.ok.inj (hbuilt.hoists.symm.trans built.hoists)
  have hexports := Except.ok.inj (hbuilt.exports.symm.trans built.exports)
  obtain ⟨himports, htypes⟩ := imports_eq_of_text_eq (traceable.readable built)
    (traceable.readable hbuilt) (hbuilt.preamble.trans built.preamble.symm) hhoists hexports htext
  exact movable.allAside_of_imports_eq traceable built hbuilt himports htypes

/-! ## A job that refers to one location -/

/-- A job whose only export is a validator from elsewhere. -/
def referringJob (output : String) : Job where
  output := ⟨output⟩
  exports := [("deA", .custom "deQ" [])]

/-- Where that validator is. -/
def referringLocations (location : String) : Locations where
  types := []
  imports := [("deQ", location)]

/-- The text of its module. -/
def referringText (specifier : String) : String :=
  "import \x7b deQ \x7d from '" ++ specifier ++ "'\n\nexport const deA = deQ\n"

theorem eq_of_refersTo {output used : String}
    (h : RefersTo (referringLocations location) (referringJob output) used) : used = location := by
  have hchecked : checkerNames (needsOf (referringJob output).exports) = ["deQ"] := by rfl
  have htyped : typeNames (needsOf (referringJob output).exports) = [] := by rfl
  rcases h with ⟨name, hname, hlocation⟩ | ⟨name, hname, -⟩
  · rw [hchecked, List.mem_singleton] at hname
    rw [hname] at hlocation
    exact (Option.some.inj hlocation).symm
  · rw [htyped] at hname
    cases hname

/-- Seen from `/c/d`, the module of a job refers to a location by the first of two specifiers; seen
from the root, it does so by the second, and has another text. -/
def WritesDifferently (output location seen rooted : String) : Prop :=
  ∃ module moved,
    build ⟨"."⟩ "" (referringLocations location) (referringJob output) = .ok module ∧
    build ((Path.mk "/c/d").join ⟨"."⟩) "" (referringLocations location) (referringJob output) =
      .ok moved ∧
    module.text = referringText seen ∧ moved.text = referringText rooted ∧
    moved.text ≠ module.text

theorem writesDifferently_of_toOption {output seen rooted : String}
    (hseen : (build ⟨"."⟩ "" (referringLocations location) (referringJob output)).toOption.map
      text = some (referringText seen))
    (hrooted : (build ((Path.mk "/c/d").join ⟨"."⟩) "" (referringLocations location)
      (referringJob output)).toOption.map text = some (referringText rooted))
    (hne : referringText rooted ≠ referringText seen) :
    WritesDifferently output location seen rooted := by
  obtain ⟨module, hbuild, htext⟩ := exists_eq_ok_of_map_toOption hseen
  obtain ⟨moved, hmoved, hmovedText⟩ := exists_eq_ok_of_map_toOption hrooted
  refine ⟨module, moved, hbuild, hmoved, htext, hmovedText, ?_⟩
  rwa [htext, hmovedText]

/-- Builds succeed with different texts, seen from `/c/d` and from the root, if the module lies
further up than a location, if a location leads back to where the base lies, and if the module has
no name of its own.  In the first case the specifier that is written in `/c/o.js` seen from `/c/d`
leads to `/q.js`, and the location is `/c/d/q.js`. -/
theorem exists_builds_with_different_texts :
    (WritesDifferently "../o.js" "./q.js" "../q.js" "./d/q.js" ∧
      ((Path.mk "/c/d").join ⟨"../o.js"⟩).normalize = ⟨"/c/o.js"⟩ ∧
      ((Path.mk "/c/d").join ⟨"./q.js"⟩).normalize = ⟨"/c/d/q.js"⟩ ∧
      ((Path.mk "/c").join ⟨"../q.js"⟩).normalize = ⟨"/q.js"⟩ ∧
      ((Path.mk "/c").join ⟨"./d/q.js"⟩).normalize = ⟨"/c/d/q.js"⟩) ∧
    WritesDifferently "o.js" "../d/q.js" "../d/q.js" "./q.js" ∧
    WritesDifferently "." "./q.js" "./q.js" "./d/q.js" := by
  refine ⟨⟨?_, by decide +kernel, by decide +kernel, by decide +kernel, by decide +kernel⟩, ?_, ?_⟩
  · exact writesDifferently_of_toOption (by decide +kernel) (by decide +kernel) (by decide)
  · exact writesDifferently_of_toOption (by decide +kernel) (by decide +kernel) (by decide)
  · exact writesDifferently_of_toOption (by decide +kernel) (by decide +kernel) (by decide)

/-! ## The text of a module -/

/-- The text of a module does not depend on how its base directory is spelled if all locations lie
aside, and only then. -/
theorem text_eq_iff_allAside (movable : Movable directory base locations job)
    (h : build base preamble locations job = .ok module)
    (hmoved : build (directory.join base) preamble locations job = .ok moved) :
    (AllAside directory base locations job → moved.text = module.text) ∧
    (Traceable directory base locations job → moved.text = module.text →
      AllAside directory base locations job) := by
  have built := build_eq_ok_iff.mp h
  constructor
  · intro haside
    have hbuild := build_eq_ok_iff.mpr (movable.built haside built)
    rw [Except.ok.inj (hmoved.symm.trans hbuild)]
    rfl
  · intro traceable htext
    exact movable.allAside_of_text_eq traceable built (build_eq_ok_iff.mp hmoved) htext

theorem movable_referring {output : String} (houtput : (Path.mk output).isAbsolute = false)
    (hnamed : ((Path.mk ".").join ⟨output⟩).walk.names ≠ [])
    (hlocation : Location.isRelative location = true)
    (hbelow : (((Path.mk "/c/d").join ⟨"."⟩).join ⟨location⟩).walk.ups = 0) :
    Movable ⟨"/c/d"⟩ ⟨"."⟩ (referringLocations location) (referringJob output) where
  rooted := by decide
  baseRelative := by decide
  outputRelative := houtput
  named := hnamed
  relative used hused := by rwa [eq_of_refersTo hused]
  belowRoot used hused := by rwa [eq_of_refersTo hused]

theorem traceable_referring {output : String} (h : '\\' ∉ location.toList) :
    Traceable ⟨"/c/d"⟩ ⟨"."⟩ (referringLocations location) (referringJob output) where
  directory := by decide
  base := by decide
  locations used hused := by rwa [eq_of_refersTo hused]
  types := List.forall_mem_nil _

/-- A module in `/c` that is built from `/c/d` refers to a module beside it in the same way seen
from `/c/d` and from the root, and to one in `/c/d` in different ways. -/
theorem text_eq_iff_allAside_referring :
    (∃ module moved,
      build ⟨"."⟩ "" (referringLocations "../q.js") (referringJob "../o.js") = .ok module ∧
      build ((Path.mk "/c/d").join ⟨"."⟩) "" (referringLocations "../q.js")
        (referringJob "../o.js") = .ok moved ∧ moved.text = module.text) ∧
    ∃ module moved,
      build ⟨"."⟩ "" (referringLocations "./q.js") (referringJob "../o.js") = .ok module ∧
      build ((Path.mk "/c/d").join ⟨"."⟩) "" (referringLocations "./q.js")
        (referringJob "../o.js") = .ok moved ∧ moved.text ≠ module.text := by
  have hbeside : (build ⟨"."⟩ "" (referringLocations "../q.js")
      (referringJob "../o.js")).toOption.map text = some (referringText "./q.js") := by
    decide +kernel
  have hbesideMoved : (build ((Path.mk "/c/d").join ⟨"."⟩) "" (referringLocations "../q.js")
      (referringJob "../o.js")).toOption.map text = some (referringText "./q.js") := by
    decide +kernel
  have hbelow : WritesDifferently "../o.js" "./q.js" "../q.js" "./d/q.js" :=
    writesDifferently_of_toOption (by decide +kernel) (by decide +kernel) (by decide)
  obtain ⟨module, hbuild, -⟩ := exists_eq_ok_of_map_toOption hbeside
  obtain ⟨moved, hmoved, -⟩ := exists_eq_ok_of_map_toOption hbesideMoved
  obtain ⟨module', moved', hbuild', hmoved', -⟩ := hbelow
  refine ⟨⟨module, moved, hbuild, hmoved, ?_⟩, module', moved', hbuild', hmoved', fun htext => ?_⟩
  · refine (text_eq_iff_allAside (movable_referring (by decide) (by decide +kernel) (by decide)
      (by decide +kernel)) hbuild hmoved).1 fun used hused => ?_
    rw [eq_of_refersTo hused]
    decide +kernel
  · have haside := (text_eq_iff_allAside (movable_referring (by decide) (by decide +kernel)
      (by decide) (by decide +kernel)) hbuild' hmoved').2 (traceable_referring (by decide)) htext
    have hused : RefersTo (referringLocations "./q.js") (referringJob "../o.js") "./q.js" :=
      Or.inl ⟨"deQ", by decide, rfl⟩
    exact absurd (haside "./q.js" hused) (by decide +kernel)

end ValidatorGen.Module
