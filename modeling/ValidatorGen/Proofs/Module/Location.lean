import ValidatorGen.Proofs.Path.Relative
import ValidatorGen.Module.Build

/-!
# Where specifiers point

A specifier is read from the directory of the module it stands in.  For a base directory that begins
at the root, `normalize_join_specifier` says that a relative specifier leads to the configured
location from there, however the location, the module and the base directory lie to one another.

Backslashes are left out.  A specifier writes them as slashes, and where they are letters of a name
it would lead elsewhere.
-/

namespace ValidatorGen.Location

open ValidatorGen.Path

variable {base output directory path : Path} {location : String}

/-! ## The text of a specifier -/

/-- A specifier that is a path says so by its beginning. -/
def BeginsWithPoints (specifier : String) : Prop :=
  "./".toList <+: specifier.toList ∨ "../".toList <+: specifier.toList

theorem beginsWithPoints_ofRelativePath (path : Path) : BeginsWithPoints (ofRelativePath path) := by
  unfold BeginsWithPoints ofRelativePath
  dsimp only
  split
  · next rest htext =>
      right
      rw [htext]
      exact ⟨rest, String.toList_ofList.symm⟩
  · left
    exact ⟨_, String.toList_ofList.symm⟩

theorem toList_ofRelativePath (h : '\\' ∉ path.text.toList) :
    (∃ rest, path.text.toList = '.' :: '.' :: '/' :: rest ∧
        (ofRelativePath path).toList = path.text.toList) ∨
      (ofRelativePath path).toList = '.' :: '/' :: path.text.toList := by
  have htext : path.text.toList.map (fun c => if c = '\\' then '/' else c) = path.text.toList := by
    calc path.text.toList.map (fun c => if c = '\\' then '/' else c)
        = path.text.toList.map id := List.map_congr_left fun c hc => by
          apply if_neg
          rintro rfl
          exact h hc
      _ = path.text.toList := List.map_id _
  unfold ofRelativePath
  dsimp only
  rw [htext]
  split
  · next rest hrest => exact Or.inl ⟨rest, hrest, by rw [hrest, String.toList_ofList]⟩
  · exact Or.inr String.toList_ofList

/-- The point in front of a specifier is no step. -/
theorem walk_ofRelativePath (h : '\\' ∉ path.text.toList) :
    (Path.mk (ofRelativePath path)).walk = path.walk := by
  unfold Path.walk steps
  rcases toList_ofRelativePath h with ⟨rest, -, htext⟩ | htext
  · rw [htext]
  · rw [htext]
    simp [Text.cut, Component.ofPart?]

theorem isAbsolute_ofRelativePath (h : '\\' ∉ path.text.toList) :
    (Path.mk (ofRelativePath path)).isAbsolute = false := by
  rw [Bool.eq_false_iff, ne_eq, isAbsolute_iff]
  rcases toList_ofRelativePath h with ⟨rest, hrest, htext⟩ | htext
  · rw [htext, hrest]
    simp
  · rw [htext]
    simp

/-! ## The target -/

/-- The names of a normal target hold only what is written in its parts. -/
theorem backslash_notMem_names (hbase : '\\' ∉ base.text.toList)
    (hlocation : '\\' ∉ location.toList) :
    ∀ name ∈ (base.join ⟨location⟩).walk.names, '\\' ∉ name.toList := by
  intro name hname hmem
  have htext := mem_text_of_mem_steps (mem_steps_of_mem_walk hname) hmem
  -- what is written in a joined path is a slash or stands in one of its parts
  rcases mem_text_of_mem_join htext with hslash | hmem | hmem
  · exact absurd hslash (by decide)
  · exact hbase hmem
  · exact hlocation hmem

theorem backslash_notMem_ofComponents {walk : Walk} (h : ∀ name ∈ walk.names, '\\' ∉ name.toList)
    (hsteps : ∀ component ∈ walk.components, component.IsStep) :
    '\\' ∉ (ofComponents walk.components).text.toList := by
  rw [ofComponents_eq hsteps, toList_intercalate_texts]
  intro hmem
  rcases Text.mem_intercalate hmem with hslash | ⟨part, hpart, hmem⟩
  · exact absurd hslash (by decide)
  · obtain ⟨component, hcomponent, rfl⟩ := List.mem_map.mp hpart
    rcases List.mem_append.mp hcomponent with hup | hname
    · rw [List.eq_of_mem_replicate hup] at hmem
      exact absurd hmem (by decide)
    · obtain ⟨name, hmem', rfl⟩ := List.mem_map.mp hname
      exact h name hmem' hmem

theorem isStep_wayTo {goal start : List String}
    (h : ∀ component ∈ goal.map Component.normal, component.IsStep) :
    ∀ component ∈ (wayTo goal start).components, component.IsStep :=
  Walk.isStep_components fun component hmem =>
    h component (List.map_subset _ (List.drop_subset _ goal) hmem)

/-- A way is read back from the specifier that is written for it. -/
theorem walk_ofRelativePath_ofComponents {walk : Walk}
    (h : ∀ component ∈ walk.names.map Component.normal, component.IsStep)
    (hbackslash : ∀ name ∈ walk.names, '\\' ∉ name.toList) :
    (Path.mk (ofRelativePath (ofComponents walk.components))).walk = walk := by
  have hsteps := Walk.isStep_components h
  rw [walk_ofRelativePath (backslash_notMem_ofComponents hbackslash hsteps),
    walk_ofComponents hsteps]

theorem walk_ofRelativePath_wayTo {goal start : List String}
    (hgoal : ∀ component ∈ goal.map Component.normal, component.IsStep)
    (hbackslash : ∀ name ∈ goal, '\\' ∉ name.toList) :
    (Path.mk (ofRelativePath (ofComponents (wayTo goal start).components))).walk =
      wayTo goal start := by
  refine walk_ofRelativePath_ofComponents (fun component hmem => ?_) fun name hname => ?_
  · exact hgoal component (List.map_subset _ (List.drop_subset _ goal) hmem)
  · exact hbackslash name (List.drop_subset _ goal hname)

/-- A module below the root has a directory, and the directory lies below the root. -/
theorem exists_parent?_outputPath (hbase : base.isAbsolute = true)
    (houtput : ∃ name, .normal name ∈ (Module.outputPath base output).components) :
    ∃ directory names, (Module.outputPath base output).parent? = some directory ∧
      directory.isAbsolute = true ∧ directory.components = .root :: names.map .normal ∧
        directory.walk = ⟨0, names⟩ := by
  have habsolute := isAbsolute_join_of_isAbsolute hbase output
  have hsteps : ∀ component ∈ (base.join output).walk.names.map Component.normal,
      component.IsStep := isStep_of_mem_names
  have hne : (base.join output).walk.names ≠ [] := by
    obtain ⟨name, hname⟩ := houtput
    rw [Module.outputPath, components_normalize_of_isAbsolute habsolute] at hname
    intro hnil
    simp [hnil] at hname
  rw [Module.outputPath, normalize_eq_of_isAbsolute habsolute]
  exact ⟨_, _, parent?_ofComponents_root hne hsteps, isAbsolute_ofComponents_root _,
    components_ofComponents_root (isStep_dropLast hsteps),
    walk_ofComponents_root (isStep_dropLast hsteps)⟩

variable {module : Path} {goal start : List String}

theorem specifier_of_components (hlocation : isRelative location = true)
    (htarget : (target base location).components = .root :: goal.map .normal)
    (hdirectory : module.directory.components = .root :: start.map .normal) :
    specifier base module location =
      ofRelativePath (ofComponents (wayTo goal start).components) := by
  rw [specifier, if_pos hlocation, relativeTo_of_root htarget hdirectory]

/-- Going the way from the start leads to the goal when it is written as a specifier, too. -/
theorem names_walk_join_wayTo (hdirectory : directory.walk = ⟨0, start⟩)
    (hgoal : ∀ component ∈ goal.map Component.normal, component.IsStep)
    (hbackslash : ∀ name ∈ goal, '\\' ∉ name.toList) :
    (directory.join ⟨ofRelativePath (ofComponents (wayTo goal start).components)⟩).walk.names =
      goal := by
  have hsteps : ∀ component ∈ (wayTo goal start).components, component.IsStep :=
    isStep_wayTo hgoal
  have htext := backslash_notMem_ofComponents
    (fun name hname => hbackslash name (List.drop_subset _ goal hname)) hsteps
  rw [walk_join (isAbsolute_ofRelativePath htext), walk_ofRelativePath_wayTo hgoal hbackslash,
    hdirectory, names_followed_wayTo]

/-- A relative specifier leads from the directory of its module to the location. -/
theorem normalize_join_specifier (hbase : base.isAbsolute = true)
    (houtput : ∃ name, .normal name ∈ (Module.outputPath base output).components)
    (hlocation : isRelative location = true) (hbase' : '\\' ∉ base.text.toList)
    (hlocation' : '\\' ∉ location.toList) :
    BeginsWithPoints (specifier base (Module.outputPath base output) location) ∧
      ∃ directory, (Module.outputPath base output).parent? = some directory ∧
        (directory.join ⟨specifier base (Module.outputPath base output) location⟩).normalize =
          (base.join ⟨location⟩).normalize := by
  obtain ⟨directory, start, hparent, hdirectory, hcomponents, hwalk⟩ :=
    exists_parent?_outputPath hbase houtput
  have htarget := isAbsolute_join_of_isAbsolute hbase ⟨location⟩
  have hspecifier : specifier base (Module.outputPath base output) location = ofRelativePath
      (ofComponents (wayTo (base.join ⟨location⟩).walk.names start).components) := by
    apply specifier_of_components hlocation (components_normalize_of_isAbsolute htarget)
    rw [Path.directory, hparent, Option.getD_some, hcomponents]
  rw [hspecifier]
  refine ⟨beginsWithPoints_ofRelativePath _, directory, hparent, ?_⟩
  rw [normalize_eq_of_isAbsolute (isAbsolute_join_of_isAbsolute hdirectory _),
    normalize_eq_of_isAbsolute htarget, names_walk_join_wayTo hwalk isStep_of_mem_names
      (backslash_notMem_names hbase' hlocation')]

/-- From `/p/out/o.js`, the way to `t.js` beside the base directory `/p` leads up twice. -/
theorem normalize_join_specifier_out :
    specifier ⟨"/p"⟩ (Module.outputPath ⟨"/p"⟩ ⟨"out/o.js"⟩) "../t.js" = "../../t.js" ∧
      ∃ directory, (Module.outputPath ⟨"/p"⟩ ⟨"out/o.js"⟩).parent? = some directory ∧
        (directory.join ⟨specifier ⟨"/p"⟩ (Module.outputPath ⟨"/p"⟩ ⟨"out/o.js"⟩)
          "../t.js"⟩).normalize = ((Path.mk "/p").join ⟨"../t.js"⟩).normalize :=
  ⟨by decide +kernel, (normalize_join_specifier (by decide) ⟨"out", by decide +kernel⟩ (by decide)
    (by decide) (by decide)).2⟩

end ValidatorGen.Location
