import ValidatorGen.Config.Basic
import ValidatorGen.Proofs.Module.References
import ValidatorGen.Proofs.Path.Normal

/-!
# Exports and the files that they are located in

A configuration locates every name that it exports in the output file of the entry that exports it,
so that validators can refer to each other.  When that very file is built, the name should be told
to be its own.  The location is the file as a location (`locationOfFile`), and the path of the
module is the normal form of the file seen from the base directory (`Module.outputPath`); the two
are compared by `Location.isOwn`.

`isOwn_location_iff` says that they are the same place for every base directory as long as the file
is relative, however it is written, or absolute and goes down only.  A file that is absolute and
goes back up is never recognised: its location is taken as it is written, while the path of the
module is folded.  If such a module has exports that refer to each other, it is not built at all.

## Strategy

For a relative file both paths are normal forms, and a point in front of a file does not change
where it leads (`walk_locationOfFile`).  For an absolute file the base directory plays no part, and
what is left is to tell when an absolute path is its own normal form (`samePlace_normalize_iff`).
-/

namespace ValidatorGen

namespace Path

/-- What is no way back up is a name. -/
theorem exists_names_of_up_notMem {steps : List Component} (hsteps : ∀ step ∈ steps, step.IsStep)
    (hup : .up ∉ steps) : ∃ names : List String, steps = names.map Component.normal := by
  induction steps with
  | nil => exact ⟨[], rfl⟩
  | cons step steps ih =>
      rw [List.forall_mem_cons] at hsteps
      rw [List.mem_cons, not_or] at hup
      obtain ⟨names, rfl⟩ := ih hsteps.2 hup.2
      cases step with
      | root => exact absurd hsteps.1 Component.not_isStep_root
      | here => exact absurd hsteps.1 Component.not_isStep_here
      | up => exact absurd rfl hup.1
      | normal name => exact ⟨name :: names, rfl⟩

theorem up_mem_components_iff {path : Path} : .up ∈ path.components ↔ .up ∈ path.steps := by
  have hlead : Component.up ∉ (lead path.text.toList).toList := by
    unfold lead
    split <;> simp
  rw [components_eq, List.mem_append, or_iff_right hlead]

/-- A path from the root is its own normal form exactly if it never goes back up. -/
theorem samePlace_normalize_iff {path : Path} (h : path.isAbsolute = true) :
    path.samePlace path.normalize = true ↔ .up ∉ path.components := by
  have hcomponents : path.components = .root :: path.steps := by
    rw [isAbsolute, decide_eq_true_eq] at h
    rw [components_eq, h]
    rfl
  rw [samePlace, decide_eq_true_eq, components_normalize_of_isAbsolute h, hcomponents,
    List.cons.injEq, ← hcomponents, up_mem_components_iff]
  constructor
  · rintro ⟨-, hsteps⟩ hup
    rw [hsteps] at hup
    simp at hup
  · intro hup
    obtain ⟨names, hnames⟩ := exists_names_of_up_notMem (fun _ => isStep_of_mem_steps) hup
    have hwalk : path.walk = ⟨0, names⟩ := by
      rw [walk, hnames]
      exact Walk.foldl_next_components ⟨0, names⟩
    rw [hwalk, hnames]
    exact ⟨rfl, rfl⟩

end Path

namespace Config

open ValidatorGen.Path

/-! ## The location of a file -/

theorem isRelative_locationOfFile {file : String} (h : (Path.mk file).isAbsolute = false) :
    Location.isRelative (locationOfFile file) = true := by
  unfold locationOfFile
  split
  · next hchars => simp [Location.isRelative, hchars]
  · next hchars => simp [Location.isRelative, hchars]
  · next hchars =>
      rw [isAbsolute_iff.mpr ⟨_, hchars⟩] at h
      cases h
  · simp [Location.isRelative]

theorem locationOfFile_of_isAbsolute {file : String} (h : (Path.mk file).isAbsolute = true) :
    locationOfFile file = file ∧ Location.isRelative file = false := by
  obtain ⟨rest, hchars⟩ : ∃ rest, file.toList = '/' :: rest := isAbsolute_iff.mp h
  simp [locationOfFile, Location.isRelative, hchars]

/-- A point in front of a file does not change where the file leads. -/
theorem walk_locationOfFile (file : String) :
    (Path.mk (locationOfFile file)).walk = (Path.mk file).walk := by
  unfold locationOfFile
  split
  · rfl
  · rfl
  · rfl
  · simp [Path.walk, steps, Text.cut, Component.ofPart?]

theorem isAbsolute_locationOfFile {file : String} (h : (Path.mk file).isAbsolute = false) :
    (Path.mk (locationOfFile file)).isAbsolute = false := by
  rw [Bool.eq_false_iff, ne_eq, isAbsolute_iff] at h ⊢
  unfold locationOfFile
  split
  · exact h
  · exact h
  · exact h
  · simp

/-- The location of a file is the module that is written to it unless the file is absolute and goes
back up. -/
theorem isOwn_locationOfFile_iff (base : Path) (file : String) :
    Location.isOwn base (locationOfFile file) (Module.outputPath base ⟨file⟩) = true ↔
      ((Path.mk file).isAbsolute = true → .up ∉ (Path.mk file).components) := by
  cases hfile : (Path.mk file).isAbsolute with
  | false =>
      -- a relative file and its location are both joined to the base and normalized
      have hlocation := isAbsolute_locationOfFile hfile
      have hroot :
          (base.join ⟨locationOfFile file⟩).isAbsolute = (base.join ⟨file⟩).isAbsolute := by
        rw [isAbsolute_join hlocation, isAbsolute_join hfile]
      have hwalk : (base.join ⟨locationOfFile file⟩).walk = (base.join ⟨file⟩).walk := by
        rw [walk_join hlocation, walk_join hfile, walk_locationOfFile]
      have hsame := normalize_congr hroot hwalk
      simp [Location.isOwn, isRelative_locationOfFile hfile, Location.target, Module.outputPath,
        samePlace, hsame]
  | true =>
      -- an absolute location is compared as it is written
      obtain ⟨hlocation, hrelative⟩ := locationOfFile_of_isAbsolute hfile
      rw [hlocation, Location.isOwn, hrelative, Module.outputPath, join_of_isAbsolute hfile]
      simpa using samePlace_normalize_iff hfile

/-! ## The location of an export -/

/-- Names that are set to one value have it, and all others keep theirs. -/
theorem get?_foldl_set (exports table : Table String) (location name : String) :
    Table.get? (exports.foldl (fun table renamed => table.set renamed.2 location) table) name =
      if name ∈ exports.map Prod.snd then some location else table.get? name := by
  induction exports generalizing table with
  | nil => simp
  | cons renamed exports ih =>
      rw [List.foldl_cons, ih, Table.get?_set, List.map_cons]
      by_cases hrest : name ∈ exports.map Prod.snd
      · simp [hrest]
      · simp [hrest]

/-- Entries that do not export a name leave its location as it is. -/
theorem get?_foldl_entries {entries : List Entry} {name : String}
    (h : ∀ entry ∈ entries, name ∉ entry.exports.map Prod.snd) (table : Table String) :
    Table.get? (entries.foldl (fun table entry => entry.exports.foldl (fun table renamed =>
      table.set renamed.2 (locationOfFile entry.outputFile)) table) table) name =
        table.get? name := by
  induction entries generalizing table with
  | nil => rfl
  | cons entry entries ih =>
      rw [List.forall_mem_cons] at h
      rw [List.foldl_cons, ih h.2, get?_foldl_set, if_neg h.1]

variable {config : Config} {before after : List Entry} {entry : Entry} {name : String}

/-- A name is located where the last entry that exports it is written. -/
theorem get?_imports_locations (hgenerators : config.generators = before ++ entry :: after)
    (hname : name ∈ entry.exports.map Prod.snd)
    (hlast : ∀ later ∈ after, name ∉ later.exports.map Prod.snd) :
    config.locations.imports.get? name = some (locationOfFile entry.outputFile) := by
  rw [locations, hgenerators, List.foldl_append, List.foldl_cons, get?_foldl_entries hlast,
    get?_foldl_set, if_pos hname]

/-- An output file that is relative, or absolute and goes down only. -/
def Entry.GoesDown (entry : Entry) : Prop :=
  (Path.mk entry.outputFile).isAbsolute = true → .up ∉ (Path.mk entry.outputFile).components

instance (entry : Entry) : Decidable entry.GoesDown := inferInstanceAs (Decidable (_ → _))

/-- A name that an entry exports last is told to be the own name of the entry's module exactly if
the output file goes down; such a module does not import the name. -/
theorem isOwn_location_iff (hgenerators : config.generators = before ++ entry :: after)
    (hname : name ∈ entry.exports.map Prod.snd)
    (hlast : ∀ later ∈ after, name ∉ later.exports.map Prod.snd) (base : Path) :
    ∃ location, config.locations.imports.get? name = some location ∧
      (Location.isOwn base location (Module.outputPath base ⟨entry.outputFile⟩) = true ↔
        entry.GoesDown) ∧
      (entry.GoesDown → ∀ preamble exports module,
        Module.build base preamble config.locations ⟨⟨entry.outputFile⟩, exports⟩ = .ok module →
          name ∉ module.importedNames) := by
  have hlocation := get?_imports_locations hgenerators hname hlast
  have hown := isOwn_locationOfFile_iff base entry.outputFile
  refine ⟨_, hlocation, hown, fun hdown preamble exports module hbuild => ?_⟩
  have built := Module.build_eq_ok_iff.mp hbuild
  refine built.notMem_importedNames_of_isOwn hlocation ?_
  rw [built.path]
  exact hown.mpr hdown

/-- A configuration with an output file that goes back up. -/
def climbingConfig : Config where
  baseDir := "."
  generatedPreamble := ""
  generators := [⟨[("A", "deA"), ("B", "deB")], "in.json", "/x/../o.js"⟩]
  importLocations := [("deNumber", "runtime"), ("deList", "runtime")]
  typeLocations := []

/-- An export may not be recognised in its own file: `deA` is located in `/x/../o.js`, which is the
file `/o.js`, and the module of that file is refused because it would import `deA`. -/
theorem exists_export_not_recognised :
    climbingConfig.locations.imports.get? "deA" = some "/x/../o.js" ∧
      Location.isOwn ⟨"."⟩ "/x/../o.js" (Module.outputPath ⟨"."⟩ ⟨"/x/../o.js"⟩) = false ∧
        Module.build ⟨"."⟩ "" climbingConfig.locations ⟨⟨"/x/../o.js"⟩,
          [("deA", .number), ("deB", .list (.custom "deA" []))]⟩ =
            .error (.duplicateExport "deA" "/o.js") := by
  refine ⟨by decide +kernel, by decide +kernel, reason?_eq_some_iff.mp ?_⟩
  decide +kernel

/-- A configuration whose output file leads through other directories. -/
def windingConfig : Config where
  baseDir := "gen"
  generatedPreamble := ""
  generators := [⟨[("A", "deA"), ("B", "deB")], "in.json", "./x//../../gen/./o.js"⟩,
    ⟨[("B", "deB")], "in.json", "last.js"⟩]
  importLocations := []
  typeLocations := []

theorem isOwn_location_windingConfig :
    (∃ location, windingConfig.locations.imports.get? "deA" = some location ∧
      Location.isOwn ⟨"gen"⟩ location
        (Module.outputPath ⟨"gen"⟩ ⟨"./x//../../gen/./o.js"⟩) = true) ∧
      ∀ preamble exports module,
        Module.build ⟨"gen"⟩ preamble windingConfig.locations
            ⟨⟨"./x//../../gen/./o.js"⟩, exports⟩ = .ok module →
          "deA" ∉ module.importedNames := by
  let entry : Entry := ⟨[("A", "deA"), ("B", "deB")], "in.json", "./x//../../gen/./o.js"⟩
  let later : Entry := ⟨[("B", "deB")], "in.json", "last.js"⟩
  obtain ⟨location, hlocation, hown, himported⟩ :=
    @isOwn_location_iff windingConfig [] [later] entry "deA" rfl (by decide) (by decide) ⟨"gen"⟩
  have hdown : entry.GoesDown := by decide +kernel
  exact ⟨⟨location, hlocation, hown.mpr hdown⟩, himported hdown⟩

end Config

end ValidatorGen
