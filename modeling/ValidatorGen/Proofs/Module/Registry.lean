import Mathlib.Data.List.Induction
import Mathlib.Data.List.Nodup
import ValidatorGen.Module.Build
import ValidatorGen.Proofs.Questions

/-!
# The registry of declarations

Exports that rely on the same declaration bring it along several times, and a module states it once.
`registerHoists` collects the declarations of a module, and refuses two of them that would give one
name different texts.  `registerHoists_exact` says when it succeeds, what it returns (`IsRegistry`),
that repetitions make no difference, and which key is reported if it fails (`DiffersFirst`).

## Strategy

A declaration is only ever compared with the one that is registered under its key, and not with all
that stand before it.  That this is enough is the content of `IsRegistry`: a registry has every
declaration that was met, so the one under a key speaks for all of them.  It is the invariant of the
collection.  The lists below are therefore taken apart at their end, where the declarations in front
have a registry (`registerHoists_append`) and one more is added to it: under a new key
(`IsRegistry.concat_new`), a second time (`IsRegistry.concat_known`), or in conflict with what is
registered (`registerFrom_cons_of_mem`).
-/

namespace ValidatorGen.Module

variable {hoists registry rest : List Hoist} {hoist : Hoist} {key : String}

/-! ## Declarations that agree -/

/-- Declarations of one key have one text. -/
def Agree (hoists : List Hoist) : Prop :=
  ∀ first ∈ hoists, ∀ second ∈ hoists, first.key = second.key → first.text = second.text

/-- A declaration has another text than some earlier one of its key. -/
def Differs (earlier : List Hoist) (hoist : Hoist) : Prop :=
  ∃ other ∈ earlier, other.key = hoist.key ∧ other.text ≠ hoist.text

instance (earlier : List Hoist) (hoist : Hoist) : Decidable (Differs earlier hoist) :=
  inferInstanceAs (Decidable (∃ other ∈ earlier, other.key = hoist.key ∧ other.text ≠ hoist.text))

/-- The first declaration of a list that differs from an earlier one has this key. -/
def DiffersFirst (hoists : List Hoist) (key : String) : Prop :=
  ∃ before hoist after, hoists = before ++ hoist :: after ∧ hoist.key = key ∧
    Differs before hoist ∧
    ∀ before' hoist' after', before = before' ++ hoist' :: after' → ¬Differs before' hoist'

theorem agree_nil : Agree [] := fun _ h => absurd h List.not_mem_nil

theorem Agree.not_differs (h : Agree hoists) {before after : List Hoist}
    (heq : hoists = before ++ hoist :: after) : ¬Differs before hoist := by
  rintro ⟨other, hother, hkey, htext⟩
  exact htext (h other (by simp [heq, hother]) hoist (by simp [heq]) hkey)

theorem agree_concat_iff : Agree (hoists ++ [hoist]) ↔ Agree hoists ∧ ¬Differs hoists hoist := by
  constructor
  · intro h
    refine ⟨fun first hfirst second hsecond => ?_, h.not_differs rfl⟩
    exact h first (List.mem_append_left _ hfirst) second (List.mem_append_left _ hsecond)
  · rintro ⟨hagree, hdiffers⟩
    have hsame : ∀ other ∈ hoists, other.key = hoist.key → other.text = hoist.text :=
      fun other hother hkey => by_contra fun htext => hdiffers ⟨other, hother, hkey, htext⟩
    intro first hfirst second hsecond hkey
    rw [List.mem_append, List.mem_singleton] at hfirst hsecond
    rcases hfirst with hfirst | rfl <;> rcases hsecond with hsecond | rfl
    · exact hagree first hfirst second hsecond hkey
    · exact hsame first hfirst hkey
    · exact (hsame second hsecond hkey.symm).symm
    · rfl

/-- Declarations agree if none of them differs from an earlier one. -/
theorem agree_of_forall_not_differs
    (h : ∀ before hoist after, hoists = before ++ hoist :: after → ¬Differs before hoist) :
    Agree hoists := by
  induction hoists using List.reverseRecOn with
  | nil => exact agree_nil
  | append_singleton hoists hoist ih =>
      refine agree_concat_iff.mpr ⟨ih fun before other after heq => ?_, h hoists hoist [] rfl⟩
      exact h before other (after ++ [hoist]) (by simp [heq])

/-- If declarations do not agree, there is a first one that differs from an earlier one. -/
theorem agree_or_differsFirst (hoists : List Hoist) :
    Agree hoists ∨ ∃ key, DiffersFirst hoists key := by
  induction hoists using List.reverseRecOn with
  | nil => exact Or.inl agree_nil
  | append_singleton hoists hoist ih =>
      rcases ih with hagree | ⟨key, before, other, after, rfl, hkey, hdiffers, hbefore⟩
      · by_cases hdiffers : Differs hoists hoist
        · exact Or.inr ⟨hoist.key, hoists, hoist, [], rfl, rfl, hdiffers,
            fun _ _ _ heq => hagree.not_differs heq⟩
        · exact Or.inl (agree_concat_iff.mpr ⟨hagree, hdiffers⟩)
      · exact Or.inr ⟨key, before, other, after ++ [hoist], by simp, hkey, hdiffers, hbefore⟩

/-! ## Registries -/

/-- The declarations of a list, each key once, in the order in which the keys appear first. -/
structure IsRegistry (hoists registry : List Hoist) : Prop where
  mem : ∀ hoist, hoist ∈ registry ↔ hoist ∈ hoists
  once : (registry.map Hoist.key).Nodup
  order : (registry.map Hoist.key).Pairwise fun a b =>
    (hoists.map Hoist.key).idxOf a < (hoists.map Hoist.key).idxOf b

namespace IsRegistry

theorem nil : IsRegistry [] [] := ⟨fun _ => Iff.rfl, .nil, .nil⟩

theorem mem_keys_iff (h : IsRegistry hoists registry) :
    key ∈ registry.map Hoist.key ↔ key ∈ hoists.map Hoist.key := by
  simp only [List.mem_map, h.mem]

/-- Only declarations that agree have a registry: it has one declaration for each key. -/
theorem agree (h : IsRegistry hoists registry) : Agree hoists := by
  intro first hfirst second hsecond hkey
  rw [← h.mem] at hfirst hsecond
  rw [List.inj_on_of_nodup_map h.once hfirst hsecond hkey]

/-- The keys of a registry keep their order, whatever is declared behind them. -/
theorem order_append (h : IsRegistry hoists registry) (others : List Hoist) :
    (registry.map Hoist.key).Pairwise fun a b =>
      ((hoists ++ others).map Hoist.key).idxOf a < ((hoists ++ others).map Hoist.key).idxOf b := by
  refine h.order.imp_of_mem fun {a b} ha hb hlt => ?_
  rw [h.mem_keys_iff] at ha hb
  rw [List.map_append, List.idxOf_append_of_mem ha, List.idxOf_append_of_mem hb]
  exact hlt

/-- A declaration that was met before leaves the registry as it is. -/
theorem concat_known (h : IsRegistry hoists registry) (hknown : hoist ∈ registry) :
    IsRegistry (hoists ++ [hoist]) registry where
  mem other := by
    rw [h.mem, List.mem_append, List.mem_singleton]
    refine ⟨Or.inl, ?_⟩
    rintro (hother | rfl)
    · exact hother
    · exact (h.mem other).mp hknown
  once := h.once
  order := h.order_append [hoist]

/-- A declaration of a new key comes last. -/
theorem concat_new (h : IsRegistry hoists registry) (hnew : hoist.key ∉ registry.map Hoist.key) :
    IsRegistry (hoists ++ [hoist]) (registry ++ [hoist]) where
  mem other := by rw [List.mem_append, List.mem_append, h.mem]
  once := by
    rw [List.map_append, List.map_singleton]
    exact h.once.append (List.nodup_singleton _) (List.disjoint_singleton.mpr hnew)
  order := by
    have hkeys : (registry ++ [hoist]).map Hoist.key = registry.map Hoist.key ++ [hoist.key] :=
      List.map_append
    rw [hkeys, List.pairwise_append]
    refine ⟨h.order_append [hoist], List.pairwise_singleton _ _, fun a ha b hb => ?_⟩
    obtain rfl := List.mem_singleton.mp hb
    rw [h.mem_keys_iff] at ha hnew
    rw [List.map_append, List.idxOf_append_of_mem ha, List.idxOf_append_of_notMem hnew]
    exact Nat.lt_add_right _ (List.idxOf_lt_length_of_mem ha)

/-- A list has one registry at most. -/
theorem unique {other : List Hoist} (h : IsRegistry hoists registry)
    (hother : IsRegistry hoists other) : registry = other := by
  have horder := List.pairwise_map.mp h.order
  have horder' := List.pairwise_map.mp hother.order
  have hperm : registry.Perm other := by
    rw [List.perm_ext_iff_of_nodup h.once.of_map hother.once.of_map]
    exact fun hoist => (h.mem hoist).trans (hother.mem hoist).symm
  exact hperm.eq_of_pairwise (fun _ _ _ _ hab hba => absurd hab (Nat.lt_asymm hba)) horder horder'

/-- A registry is its own registry. -/
theorem self (h : IsRegistry hoists registry) : IsRegistry registry registry where
  mem _ := Iff.rfl
  once := h.once
  order := List.pairwise_iff_getElem.mpr fun i j hi hj hlt => by
    rwa [h.once.idxOf_getElem, h.once.idxOf_getElem]

end IsRegistry

/-! ## Registering declarations -/

theorem registerFrom_cons_of_notMem (h : hoist.key ∉ registry.map Hoist.key) :
    registerFrom registry (hoist :: rest) = registerFrom (registry ++ [hoist]) rest := by
  have hnone : registry.find? (·.key == hoist.key) = none := by
    simpa [List.find?_eq_none] using h
  rw [registerFrom, hnone]

theorem find?_key_of_mem (hkeys : (registry.map Hoist.key).Nodup) (hmem : hoist ∈ registry) :
    registry.find? (·.key == hoist.key) = some hoist := by
  cases hfound : registry.find? (·.key == hoist.key) with
  | none =>
      have hnew := List.find?_eq_none.mp hfound hoist hmem
      exact absurd (beq_self_eq_true _) hnew
  | some found =>
      have hsame : found.key = hoist.key := by simpa using List.find?_some hfound
      rw [List.inj_on_of_nodup_map hkeys (List.mem_of_find?_eq_some hfound) hmem hsame]

/-- A declaration is compared with the one that is registered under its key. -/
theorem registerFrom_cons_of_mem (hkeys : (registry.map Hoist.key).Nodup) {earlier : Hoist}
    (hearlier : earlier ∈ registry) (hkey : earlier.key = hoist.key) :
    registerFrom registry (hoist :: rest) =
      if earlier.text = hoist.text then registerFrom registry rest else .error hoist.key := by
  have hfind : registry.find? (·.key == hoist.key) = some earlier :=
    hkey ▸ find?_key_of_mem hkeys hearlier
  rw [registerFrom, hfind]

theorem registerFrom_append (registry hoists others : List Hoist) :
    registerFrom registry (hoists ++ others) =
      registerFrom registry hoists >>= (registerFrom · others) := by
  induction hoists generalizing registry with
  | nil => rfl
  | cons hoist rest ih =>
      rw [List.cons_append, registerFrom, registerFrom]
      split
      · exact ih _
      · split
        · exact ih _
        · rfl

/-- What stands behind is added to the registry of what stands in front. -/
theorem registerHoists_append (h : registerHoists hoists = .ok registry) (others : List Hoist) :
    registerHoists (hoists ++ others) = registerFrom registry others := by
  rw [registerHoists, registerFrom_append, ← registerHoists, h]
  rfl

theorem exists_registerHoists_of_agree (h : Agree hoists) :
    ∃ registry, registerHoists hoists = .ok registry ∧ IsRegistry hoists registry := by
  induction hoists using List.reverseRecOn with
  | nil => exact ⟨[], rfl, .nil⟩
  | append_singleton hoists hoist ih =>
      obtain ⟨hagree, hdiffers⟩ := agree_concat_iff.mp h
      obtain ⟨registry, hregistry, his⟩ := ih hagree
      by_cases hkey : hoist.key ∈ registry.map Hoist.key
      · obtain ⟨earlier, hearlier, hkey⟩ := List.mem_map.mp hkey
        have htext : earlier.text = hoist.text := by_contra fun htext =>
          hdiffers ⟨earlier, (his.mem earlier).mp hearlier, hkey, htext⟩
        obtain rfl : earlier = hoist := by
          cases earlier; cases hoist
          exact congrArg₂ Hoist.mk hkey htext
        refine ⟨registry, ?_, his.concat_known hearlier⟩
        rw [registerHoists_append hregistry, registerFrom_cons_of_mem his.once hearlier rfl,
          if_pos rfl, registerFrom]
      · refine ⟨registry ++ [hoist], ?_, his.concat_new hkey⟩
        rw [registerHoists_append hregistry, registerFrom_cons_of_notMem hkey, registerFrom]

theorem registerHoists_of_differsFirst (h : DiffersFirst hoists key) :
    registerHoists hoists = .error key := by
  obtain ⟨before, hoist, after, rfl, rfl, ⟨earlier, hearlier, hkey, htext⟩, hbefore⟩ := h
  obtain ⟨registry, hregistry, his⟩ :=
    exists_registerHoists_of_agree (agree_of_forall_not_differs hbefore)
  rw [registerHoists_append hregistry,
    registerFrom_cons_of_mem his.once ((his.mem earlier).mpr hearlier) hkey, if_neg htext]

theorem registerHoists_eq_ok_iff :
    registerHoists hoists = .ok registry ↔ IsRegistry hoists registry := by
  constructor
  · intro h
    rcases agree_or_differsFirst hoists with hagree | ⟨key, hdiffers⟩
    · obtain ⟨found, hfound, his⟩ := exists_registerHoists_of_agree hagree
      obtain rfl := Except.ok.inj (hfound.symm.trans h)
      exact his
    · cases h.symm.trans (registerHoists_of_differsFirst hdiffers)
  · intro h
    obtain ⟨found, hfound, his⟩ := exists_registerHoists_of_agree h.agree
    rw [hfound, his.unique h]

theorem registerHoists_eq_error_iff :
    registerHoists hoists = .error key ↔ DiffersFirst hoists key := by
  refine ⟨fun h => ?_, registerHoists_of_differsFirst⟩
  rcases agree_or_differsFirst hoists with hagree | ⟨found, hdiffers⟩
  · obtain ⟨registry, hregistry, -⟩ := exists_registerHoists_of_agree hagree
    cases h.symm.trans hregistry
  · obtain rfl := Except.error.inj ((registerHoists_of_differsFirst hdiffers).symm.trans h)
    exact hdiffers

theorem nodup_keys_of_registerHoists (h : registerHoists hoists = .ok registry) :
    (registry.map Hoist.key).Nodup :=
  (registerHoists_eq_ok_iff.mp h).once

theorem mem_of_registerHoists (h : registerHoists hoists = .ok registry) (hoist : Hoist) :
    hoist ∈ registry ↔ hoist ∈ hoists :=
  (registerHoists_eq_ok_iff.mp h).mem hoist

/-! ## Repetitions -/

/-- A list in which declarations of another one are repeated at later positions. -/
inductive Repeats (hoists : List Hoist) : List Hoist → Prop where
  | refl : Repeats hoists hoists
  | insert {before after : List Hoist} {hoist : Hoist} :
      Repeats hoists (before ++ after) → hoist ∈ before →
        Repeats hoists (before ++ hoist :: after)

/-- A declaration may be repeated anywhere behind its place. -/
theorem registerHoists_insert {before : List Hoist} (h : hoist ∈ before) (after : List Hoist) :
    registerHoists (before ++ hoist :: after) = registerHoists (before ++ after) := by
  cases hbefore : registerHoists before with
  | error key =>
      -- what is refused in front of the repetition is refused with and without it
      rw [registerHoists, registerHoists, registerFrom_append, registerFrom_append,
        ← registerHoists, hbefore]
      rfl
  | ok registry =>
      have his := registerHoists_eq_ok_iff.mp hbefore
      rw [registerHoists_append hbefore, registerHoists_append hbefore,
        registerFrom_cons_of_mem his.once ((his.mem hoist).mpr h) rfl, if_pos rfl]

theorem registerHoists_of_repeats {longer : List Hoist} (h : Repeats hoists longer) :
    registerHoists longer = registerHoists hoists := by
  induction h with
  | refl => rfl
  | insert _ hmem ih => rw [registerHoists_insert hmem, ih]

/-- Declarations are registered exactly if those of one key have one text.  Then each key stands
once, in the order of first appearance, and neither registering the result nor repeating some of
the declarations changes anything.  Otherwise the key of the first declaration that differs from an
earlier one is reported. -/
theorem registerHoists_exact (hoists : List Hoist) :
    ((∃ registry, registerHoists hoists = .ok registry) ↔ Agree hoists) ∧
    (∀ registry, registerHoists hoists = .ok registry ↔ IsRegistry hoists registry) ∧
    (∀ registry, registerHoists hoists = .ok registry →
      registerHoists registry = .ok registry) ∧
    (∀ longer, Repeats hoists longer → registerHoists longer = registerHoists hoists) ∧
    ∀ key, registerHoists hoists = .error key ↔ DiffersFirst hoists key := by
  refine ⟨⟨?_, fun h => ?_⟩, fun _ => registerHoists_eq_ok_iff, fun registry h => ?_,
    fun _ => registerHoists_of_repeats, fun _ => registerHoists_eq_error_iff⟩
  · rintro ⟨registry, h⟩
    exact (registerHoists_eq_ok_iff.mp h).agree
  · obtain ⟨registry, hregistry, -⟩ := exists_registerHoists_of_agree h
    exact ⟨registry, hregistry⟩
  · exact registerHoists_eq_ok_iff.mpr (registerHoists_eq_ok_iff.mp h).self

/-- A declaration of `ShapeRefine`. -/
def shapeHoist : Hoist := ⟨"ShapeRefine", "const ShapeRefine = deCircle"⟩

/-- A declaration of `UnitRefine`. -/
def unitHoist : Hoist := ⟨"UnitRefine", "const UnitRefine = deMetre"⟩

/-- Both declarations may be repeated.  If both are changed as well, the change that comes first is
reported, and not that of the key that comes first. -/
theorem registerHoists_exact_repeated :
    registerHoists [shapeHoist, unitHoist] = .ok [shapeHoist, unitHoist] ∧
    Repeats [shapeHoist, unitHoist] [shapeHoist, shapeHoist, unitHoist, shapeHoist] ∧
    registerHoists [shapeHoist, shapeHoist, unitHoist, shapeHoist] =
      .ok [shapeHoist, unitHoist] ∧
    registerHoists [shapeHoist, unitHoist, ⟨"UnitRefine", "const UnitRefine = deYard"⟩,
      ⟨"ShapeRefine", "const ShapeRefine = deSquare"⟩] = .error "UnitRefine" := by
  have hexact := registerHoists_exact [shapeHoist, unitHoist]
  have hok : registerHoists [shapeHoist, unitHoist] = .ok [shapeHoist, unitHoist] := by
    decide +kernel
  have hrepeats : Repeats [shapeHoist, unitHoist]
      [shapeHoist, shapeHoist, unitHoist, shapeHoist] := by
    have hlast : Repeats [shapeHoist, unitHoist] ([shapeHoist, unitHoist] ++ [shapeHoist]) :=
      .insert .refl (by simp)
    have hfirst : Repeats [shapeHoist, unitHoist]
        ([shapeHoist] ++ shapeHoist :: [unitHoist, shapeHoist]) :=
      .insert hlast (by simp)
    exact hfirst
  refine ⟨hok, hrepeats, ?_, ?_⟩
  · rw [hexact.2.2.2.1 _ hrepeats, hok]
  · have hagree : Agree [shapeHoist, unitHoist] := hexact.1.mp ⟨_, hok⟩
    refine ((registerHoists_exact _).2.2.2.2 _).mpr
      ⟨[shapeHoist, unitHoist], _, _, rfl, rfl, ?_, fun _ _ _ => hagree.not_differs⟩
    decide

end ValidatorGen.Module
