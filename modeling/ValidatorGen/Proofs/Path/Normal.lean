import ValidatorGen.Proofs.Path.Walk

/-!
# Normal forms of paths

`normalize_canonical` says what the normal form of a path is and that nothing is gained by taking it
twice or by taking it of the parts of a joined path first: whether a path or the directory that it
is looked at from is normalized beforehand makes no difference to where the two lead.

## Strategy

A normal form is determined by what its path begins with and by where the path leads
(`normalize_congr`); below the root the levels up do not count (`normalize_congr_of_isAbsolute`).
So it is enough to know how a path that has been normalized begins (`isAbsolute_normalize`) and
where it leads (`walk_normalize_eq`), and how both are made up for a joined path, which
`isAbsolute_join` and `walk_join` tell.
-/

namespace ValidatorGen.Path

variable {path other : Path}

/-! ## The form -/

/-- No component is a point.  A `..` has nothing but others of its kind before it, and only where
the path does not begin at the root. -/
structure IsNormal (path : Path) : Prop where
  here : .here ∉ path.components
  up : ∀ before after, path.components = before ++ .up :: after →
    path.isAbsolute = false ∧ ∀ component ∈ before, component = .up

/-- What stands before a `..` in a walk is none of its names. -/
theorem Walk.eq_up_of_components_eq {walk : Walk} {before after : List Component}
    (h : walk.components = before ++ .up :: after) : ∀ component ∈ before, component = .up := by
  intro component hmem
  have hwhole : component ∈ walk.components := h ▸ List.mem_append_left _ hmem
  rcases List.mem_append.mp hwhole with hup | hname
  · exact List.eq_of_mem_replicate hup
  · -- a name would come before a step up, and all names come behind all steps up
    obtain ⟨name, -, rfl⟩ := List.mem_map.mp hname
    have hsorted : walk.components.Pairwise fun first second =>
        second = .up → first = Component.up := by
      refine List.pairwise_append.mpr ⟨?_, ?_, ?_⟩
      · exact List.pairwise_replicate.mpr (Or.inr fun _ => rfl)
      · exact List.pairwise_map.mpr (List.pairwise_of_forall nofun)
      · exact fun first hfirst _ _ _ => List.eq_of_mem_replicate hfirst
    rw [h, List.pairwise_append] at hsorted
    exact hsorted.2.2 _ hmem _ List.mem_cons_self rfl

theorem isAbsolute_normalize (path : Path) : path.normalize.isAbsolute = path.isAbsolute := by
  cases h : path.isAbsolute with
  | true => rw [normalize_eq_of_isAbsolute h, isAbsolute_ofComponents_root]
  | false =>
      rw [normalize_eq h, ofComponents_eq isStep_of_mem_walk, isAbsolute,
        lead_texts isStep_of_mem_walk]
      rfl

theorem isNormal_normalize (path : Path) : path.normalize.IsNormal := by
  cases h : path.isAbsolute with
  | true =>
      have hcomponents := components_normalize_of_isAbsolute h
      refine ⟨by simp [hcomponents], fun before after hsplit => ?_⟩
      -- below the root there is no step up at all
      have hmem : Component.up ∈ path.normalize.components := by simp [hsplit]
      simp [hcomponents] at hmem
  | false =>
      have hcomponents := components_normalize h
      refine ⟨by simp [hcomponents, Walk.components], fun before after hsplit => ?_⟩
      exact ⟨by rw [isAbsolute_normalize, h], Walk.eq_up_of_components_eq (hcomponents ▸ hsplit)⟩

/-! ## Where normal forms lead -/

/-- Paths that begin alike and lead to the same place have the same normal form. -/
theorem normalize_congr (hroot : path.isAbsolute = other.isAbsolute)
    (hwalk : path.walk = other.walk) : path.normalize = other.normalize := by
  cases h : path.isAbsolute with
  | false => rw [normalize_eq h, normalize_eq (hroot ▸ h), hwalk]
  | true => rw [normalize_eq_of_isAbsolute h, normalize_eq_of_isAbsolute (hroot ▸ h), hwalk]

/-- Below the root only names count. -/
theorem normalize_congr_of_isAbsolute (h : path.isAbsolute = true)
    (hother : other.isAbsolute = true) (hnames : path.walk.names = other.walk.names) :
    path.normalize = other.normalize := by
  rw [normalize_eq_of_isAbsolute h, normalize_eq_of_isAbsolute hother, hnames]

theorem walk_normalize (h : path.isAbsolute = false) : path.normalize.walk = path.walk := by
  rw [normalize_eq h, walk_ofComponents isStep_of_mem_walk]

/-- A normal form leads where its path leads; below the root, levels up have led nowhere. -/
theorem walk_normalize_eq (path : Path) : path.normalize.walk =
    ⟨if path.isAbsolute = true then 0 else path.walk.ups, path.walk.names⟩ := by
  cases h : path.isAbsolute with
  | false => exact walk_normalize h
  | true =>
      rw [normalize_eq_of_isAbsolute h, walk_ofComponents_root isStep_of_mem_names, if_pos rfl]

theorem names_walk_normalize (path : Path) : path.normalize.walk.names = path.walk.names := by
  rw [walk_normalize_eq]

theorem normalize_normalize (path : Path) : path.normalize.normalize = path.normalize := by
  have hroot := isAbsolute_normalize path
  cases h : path.isAbsolute with
  | false => exact normalize_congr hroot (walk_normalize h)
  | true => exact normalize_congr_of_isAbsolute (hroot.trans h) h (names_walk_normalize path)

/-! ## Joined paths -/

/-- A path from the root is not looked at from a directory. -/
theorem join_of_isAbsolute (h : path.isAbsolute = true) (directory : Path) :
    directory.join path = path := by
  rw [join, if_pos (Or.inl h)]

/-- A directory may be normalized before a path is looked at from it. -/
theorem normalize_join_left (directory path : Path) :
    (directory.normalize.join path).normalize = (directory.join path).normalize := by
  cases hpath : path.isAbsolute with
  | true => rw [join_of_isAbsolute hpath, join_of_isAbsolute hpath]
  | false =>
      have hroot :
          (directory.normalize.join path).isAbsolute = (directory.join path).isAbsolute := by
        rw [isAbsolute_join hpath, isAbsolute_join hpath, isAbsolute_normalize]
      cases hdirectory : directory.isAbsolute with
      | false =>
          refine normalize_congr hroot ?_
          rw [walk_join hpath, walk_join hpath, walk_normalize hdirectory]
      | true =>
          have hjoined := isAbsolute_join_of_isAbsolute hdirectory path
          refine normalize_congr_of_isAbsolute (hroot.trans hjoined) hjoined ?_
          rw [walk_join hpath, walk_join hpath, Walk.followed, Walk.followed, names_walk_normalize]

/-- A path may be normalized before it is looked at from a directory. -/
theorem normalize_join_right (directory path : Path) :
    (directory.join path.normalize).normalize = (directory.join path).normalize := by
  have hroot := isAbsolute_normalize path
  cases hpath : path.isAbsolute with
  | true =>
      rw [join_of_isAbsolute hpath, join_of_isAbsolute (hroot.trans hpath), normalize_normalize]
  | false =>
      have hnormal := hroot.trans hpath
      refine normalize_congr ?_ ?_
      · rw [isAbsolute_join hpath, isAbsolute_join hnormal]
      · rw [walk_join hpath, walk_join hnormal, walk_normalize hpath]

/-- The normal form of a path begins as the path does and leads where the path leads; it is normal,
and its own normal form; and joined paths have the same normal form whether their parts are
normalized first or not. -/
theorem normalize_canonical (directory path : Path) :
    path.normalize.isAbsolute = path.isAbsolute ∧
      path.normalize.walk =
        ⟨if path.isAbsolute = true then 0 else path.walk.ups, path.walk.names⟩ ∧
      path.normalize.IsNormal ∧ path.normalize.normalize = path.normalize ∧
      (directory.join path).normalize = (directory.normalize.join path).normalize ∧
      (directory.join path).normalize = (directory.join path.normalize).normalize :=
  ⟨isAbsolute_normalize path, walk_normalize_eq path, isNormal_normalize path,
    normalize_normalize path, (normalize_join_left directory path).symm,
    (normalize_join_right directory path).symm⟩

/-- Levels up remain in front of a path that does not begin at the root. -/
example : (Path.mk "./a//../../b/./c/").normalize = ⟨"../b/c"⟩ := by decide +kernel

end ValidatorGen.Path
