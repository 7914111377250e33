import ValidatorGen.Path

/-!
# The text of a path and its components

What a path begins with, the root or a point, is set apart from its steps, which are the components
behind it.  The steps of a joined path are those of the directory followed by those of the path
(`steps_join`), and a list of steps comes back from the path that is made of it
(`components_ofComponents`, `components_ofComponents_root`).

The text matters only up to its components, with one exception: blank parts at the end of a text are
what `parent?` has to look for.  Paths that are made of components have none
(`parent?_ofComponents_append`).
-/

namespace ValidatorGen.Path

/-! ## Steps -/

/-- The components behind what a path begins with. -/
def steps (path : Path) : List Component :=
  (Text.cut '/' path.text.toList).filterMap Component.ofPart?

/-- Whether a component stands in a path as one of its parts. -/
def Component.IsStep (component : Component) : Prop :=
  Component.ofPart? component.text.toList = some component ∧ '/' ∉ component.text.toList

theorem Component.isStep_up : Component.up.IsStep := ⟨rfl, by decide⟩

theorem Component.not_isStep_root : ¬Component.root.IsStep := fun h => absurd h.2 (by decide)

theorem Component.not_isStep_here : ¬Component.here.IsStep := fun h => nomatch h.1

theorem Component.isStep_of_ofPart? {part : List Char} {component : Component}
    (h : Component.ofPart? part = some component) (hpart : '/' ∉ part) : component.IsStep := by
  unfold Component.ofPart? at h
  split at h
  · cases h
  · next hblank =>
      split at h
      · obtain rfl := Option.some.inj h
        exact Component.isStep_up
      · next hup =>
          obtain rfl := Option.some.inj h
          refine ⟨?_, by simpa [Component.text] using hpart⟩
          simp [Component.ofPart?, Component.text, hblank, hup]

theorem isStep_of_mem_steps {path : Path} {component : Component} (h : component ∈ path.steps) :
    component.IsStep := by
  obtain ⟨part, hpart, hcomponent⟩ := List.mem_filterMap.mp h
  exact Component.isStep_of_ofPart? hcomponent (Text.separator_notMem_cut hpart)

theorem mem_text_of_mem_steps {path : Path} {name : String} {c : Char}
    (h : .normal name ∈ path.steps) (hc : c ∈ name.toList) : c ∈ path.text.toList := by
  obtain ⟨part, hpart, hname⟩ := List.mem_filterMap.mp h
  have htext : name.toList = part := by
    unfold Component.ofPart? at hname
    split at hname
    · cases hname
    · split at hname
      · cases hname
      · obtain rfl : String.ofList part = name := by simpa using hname
        exact String.toList_ofList
  exact Text.subset_of_mem_cut hpart (htext ▸ hc)

/-- A path consists of what it begins with and its steps. -/
theorem components_eq (path : Path) :
    path.components = (lead path.text.toList).toList ++ path.steps := by
  have hparts : (parts path.text.toList).filterMap Component.ofPart? = path.steps := by
    unfold parts steps
    cases hlead : lead path.text.toList with
    | none => simp
    | some first =>
        -- the first part of the text is blank or a point, and stands for no component
        unfold lead at hlead
        split at hlead
        · next rest hchars => simp [hchars, Text.cut, Component.ofPart?]
        · next hchars => simp [hchars, Text.cut, Component.ofPart?]
        · next rest hchars =>
            simp [hchars, Text.cut, Component.ofPart?]
        · cases hlead
  rw [components, hparts]

/-! ## Joined paths -/

theorem isAbsolute_iff {path : Path} :
    path.isAbsolute = true ↔ ∃ rest, path.text.toList = '/' :: rest := by
  unfold isAbsolute lead
  split <;> simp_all

theorem text_join {directory path : Path} (hpath : path.isAbsolute = false)
    (hdirectory : directory.text ≠ "") : ∃ before,
      (directory.join path).text.toList = before ++ '/' :: path.text.toList ∧
        (directory.text.toList = before ∨ directory.text.toList = before ++ ['/']) := by
  unfold join
  rw [if_neg (by simp [hpath, hdirectory])]
  split
  · next hlast =>
      obtain ⟨before, hchars⟩ := List.getLast?_eq_some_iff.mp hlast
      exact ⟨before, by simp [hchars], Or.inr hchars⟩
  · exact ⟨directory.text.toList, by simp, Or.inl rfl⟩

theorem join_of_text_eq_empty {directory : Path} (path : Path) (h : directory.text = "") :
    directory.join path = path := by
  rw [join, if_pos (Or.inr h)]

/-- The steps to a path from a directory are those to the directory and those of the path. -/
theorem steps_join {directory path : Path} (hpath : path.isAbsolute = false) :
    (directory.join path).steps = directory.steps ++ path.steps := by
  by_cases hdirectory : directory.text = ""
  · rw [join_of_text_eq_empty path hdirectory]
    simp [steps, hdirectory, Text.cut, Component.ofPart?]
  · obtain ⟨before, hjoin, hbefore⟩ := text_join hpath hdirectory
    have hsteps : directory.steps = (Text.cut '/' before).filterMap Component.ofPart? := by
      rcases hbefore with hchars | hchars
      · rw [steps, hchars]
      · rw [steps, hchars, Text.cut_append_separator]
        simp [Text.cut, Component.ofPart?]
    rw [steps, hjoin, Text.cut_append_separator, List.filterMap_append, hsteps, steps]

/-- A path looked at from a directory begins as the directory does. -/
theorem isAbsolute_join {directory path : Path} (hpath : path.isAbsolute = false) :
    (directory.join path).isAbsolute = directory.isAbsolute := by
  by_cases hdirectory : directory.text = ""
  · rw [join_of_text_eq_empty path hdirectory, hpath]
    simp [isAbsolute, hdirectory, lead]
  · obtain ⟨before, hjoin, hbefore⟩ := text_join hpath hdirectory
    rw [Bool.eq_iff_iff, isAbsolute_iff, isAbsolute_iff, hjoin]
    cases before with
    | nil => rcases hbefore with hchars | hchars <;> simp_all
    | cons c rest => rcases hbefore with hchars | hchars <;> simp [hchars]

theorem isAbsolute_join_of_isAbsolute {directory : Path} (h : directory.isAbsolute = true)
    (path : Path) : (directory.join path).isAbsolute = true := by
  by_cases hpath : path.isAbsolute = true
  · rw [join, if_pos (Or.inl hpath), hpath]
  · rw [Bool.not_eq_true] at hpath
    rw [isAbsolute_join hpath, h]

/-- Joining adds separators only. -/
theorem mem_text_of_mem_join {directory path : Path} {c : Char}
    (h : c ∈ (directory.join path).text.toList) :
    c = '/' ∨ c ∈ directory.text.toList ∨ c ∈ path.text.toList := by
  unfold join at h
  split at h
  · exact Or.inr (Or.inr h)
  · split at h
    · rw [String.toList_append, List.mem_append] at h
      exact Or.inr h
    · simp only [String.toList_append, List.mem_append] at h
      rcases h with (h | h) | h
      · exact Or.inr (Or.inl h)
      · exact Or.inl (by simpa using h)
      · exact Or.inr (Or.inr h)

/-! ## Paths made of components -/

theorem toList_intercalate_texts (components : List Component) :
    ("/".intercalate (components.map Component.text)).toList =
      ['/'].intercalate (components.map fun component => component.text.toList) := by
  rw [String.toList_intercalate, List.map_map]
  rfl

theorem filterMap_ofPart?_texts {components : List Component}
    (h : ∀ component ∈ components, component.IsStep) :
    (components.map fun component => component.text.toList).filterMap Component.ofPart? =
      components := by
  induction components with
  | nil => rfl
  | cons component rest ih =>
      rw [List.forall_mem_cons] at h
      rw [List.map_cons, List.filterMap_cons_some h.1.1, ih h.2]

theorem filterMap_cut_texts {components : List Component}
    (h : ∀ component ∈ components, component.IsStep) :
    (Text.cut '/' ("/".intercalate (components.map Component.text)).toList).filterMap
      Component.ofPart? = components := by
  rw [toList_intercalate_texts]
  cases components with
  | nil => rfl
  | cons component rest =>
      rw [Text.cut_intercalate (by simp), filterMap_ofPart?_texts h]
      exact List.forall_mem_map.mpr fun component hmem => (h component hmem).2

theorem ofComponents_eq {components : List Component}
    (h : ∀ component ∈ components, component.IsStep) :
    ofComponents components = ⟨"/".intercalate (components.map Component.text)⟩ := by
  unfold ofComponents
  split
  · exact absurd (h _ List.mem_cons_self) Component.not_isStep_root
  · rfl

/-- A text that begins with the root or a point does not begin with a step. -/
theorem ofPart?_eq_none_of_lead {text : List Char} (h : lead text ≠ none) :
    ∃ part others, Text.cut '/' text = part :: others ∧ Component.ofPart? part = none := by
  unfold lead at h
  split at h
  · next rest => exact ⟨[], Text.cut '/' rest, by simp [Text.cut], rfl⟩
  · exact ⟨['.'], [], rfl, rfl⟩
  · next rest => exact ⟨['.'], Text.cut '/' rest, by simp [Text.cut], rfl⟩
  · exact absurd rfl h

theorem lead_texts {components : List Component}
    (h : ∀ component ∈ components, component.IsStep) :
    lead ("/".intercalate (components.map Component.text)).toList = none := by
  cases components with
  | nil => rfl
  | cons component rest =>
      by_cases hlead : lead ("/".intercalate ((component :: rest).map Component.text)).toList = none
      · exact hlead
      · -- the first part would stand for no component
        obtain ⟨part, others, hcut, hpart⟩ := ofPart?_eq_none_of_lead hlead
        rw [toList_intercalate_texts, Text.cut_intercalate (by simp)
          (List.forall_mem_map.mpr fun component hmem => (h component hmem).2), List.map_cons,
          List.cons.injEq] at hcut
        have hstep := (h component List.mem_cons_self).1
        rw [hcut.1, hpart] at hstep
        cases hstep

theorem steps_ofComponents {components : List Component}
    (h : ∀ component ∈ components, component.IsStep) :
    (ofComponents components).steps = components := by
  rw [ofComponents_eq h]
  exact filterMap_cut_texts h

/-- Steps come back from the path that is made of them. -/
theorem components_ofComponents {components : List Component}
    (h : ∀ component ∈ components, component.IsStep) :
    (ofComponents components).components = components := by
  rw [components_eq, steps_ofComponents h, ofComponents_eq h, lead_texts h]
  rfl

theorem toList_ofComponents_root (components : List Component) :
    (ofComponents (.root :: components)).text.toList =
      '/' :: ("/".intercalate (components.map Component.text)).toList := by
  simp [ofComponents]

theorem isAbsolute_ofComponents_root (components : List Component) :
    (ofComponents (.root :: components)).isAbsolute = true :=
  isAbsolute_iff.mpr ⟨_, toList_ofComponents_root components⟩

theorem steps_ofComponents_root {components : List Component}
    (h : ∀ component ∈ components, component.IsStep) :
    (ofComponents (.root :: components)).steps = components := by
  rw [steps, toList_ofComponents_root, Text.cut, if_pos rfl, List.filterMap_cons_none rfl,
    filterMap_cut_texts h]

/-- The same for steps behind the root. -/
theorem components_ofComponents_root {components : List Component}
    (h : ∀ component ∈ components, component.IsStep) :
    (ofComponents (.root :: components)).components = .root :: components := by
  rw [components_eq, steps_ofComponents_root h, toList_ofComponents_root]
  rfl

/-! ## Parents -/

theorem dropBlank_texts {components : List Component}
    (h : ∀ component ∈ components, component.IsStep) :
    dropBlank (components.map fun component => component.text.toList).reverse =
      (components.map fun component => component.text.toList).reverse := by
  rw [← List.map_reverse]
  cases hlast : components.reverse with
  | nil => rfl
  | cons component rest =>
      have hmem : component ∈ components := by
        rw [← List.mem_reverse, hlast]
        exact List.mem_cons_self
      have hstep := (h component hmem).1
      rw [List.map_cons, dropBlank, List.dropWhile_cons_of_neg]
      simp [hstep]

theorem parent?_of_parts {path : Path} {components : List Component} {last : Component}
    (hparts : parts path.text.toList =
      (components ++ [last]).map fun component => component.text.toList)
    (h : ∀ component ∈ components ++ [last], component.IsStep) :
    path.parent? = some ⟨String.ofList
      ((if (lead path.text.toList).isSome then path.text.toList.take 1 else []) ++
        ("/".intercalate (components.map Component.text)).toList)⟩ := by
  have hbefore : ∀ component ∈ components, component.IsStep :=
    fun component hmem => h component (List.mem_append_left _ hmem)
  have hdrop : dropBlank (parts path.text.toList).reverse =
      last.text.toList :: (components.map fun component => component.text.toList).reverse := by
    rw [hparts, dropBlank_texts h, List.map_append, List.reverse_append]
    rfl
  rw [parent?]
  simp only [hdrop]
  rw [dropBlank_texts hbefore, List.reverse_reverse, toList_intercalate_texts]

theorem cut_texts {components : List Component} {last : Component}
    (h : ∀ component ∈ components ++ [last], component.IsStep) :
    Text.cut '/' ("/".intercalate ((components ++ [last]).map Component.text)).toList =
      (components ++ [last]).map fun component => component.text.toList := by
  rw [toList_intercalate_texts, Text.cut_intercalate (by simp)]
  exact List.forall_mem_map.mpr fun component hmem => (h component hmem).2

/-- The parent of a path that is made of components is made of all of them but the last. -/
theorem parent?_ofComponents_append {components : List Component} {last : Component}
    (h : ∀ component ∈ components ++ [last], component.IsStep) :
    (ofComponents (components ++ [last])).parent? = some (ofComponents components) := by
  have hbefore : ∀ component ∈ components, component.IsStep :=
    fun component hmem => h component (List.mem_append_left _ hmem)
  have hlead := lead_texts h
  rw [ofComponents_eq h, parent?_of_parts _ h, hlead, ofComponents_eq hbefore]
  · rw [if_neg (by simp), List.nil_append, String.ofList_toList]
  · rw [parts, hlead]
    exact cut_texts h

theorem parent?_ofComponents_root_append {components : List Component} {last : Component}
    (h : ∀ component ∈ components ++ [last], component.IsStep) :
    (ofComponents (.root :: (components ++ [last]))).parent? =
      some (ofComponents (.root :: components)) := by
  have htext := toList_ofComponents_root (components ++ [last])
  rw [parent?_of_parts _ h, htext, ofComponents]
  · congr 2
    rw [← String.toList_inj]
    simp [lead]
  · rw [parts, htext]
    exact cut_texts h

end ValidatorGen.Path
