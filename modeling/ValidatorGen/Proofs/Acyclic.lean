import Mathlib.Order.WellFoundedSet

/-!
# Cycles of a relation

Names refer to names, and exports to exports.  `Acyclic` says that no chain of such references
leads back to where it starts, and `LeadsToCycle` that a chain gets caught in a cycle.

Two facts are used elsewhere.  Where a finite list is left with nothing but things that refer to
each other, all of them lead to a cycle (`leadsToCycle_of_forall_exists`).  What refers to nothing
can be taken away, and the rest leads to cycles as before (`leadsToCycle_congr`).
-/

namespace ValidatorGen

open Relation

variable {α : Type} {r r' : α → α → Prop}

/-- No chain leads from anything back to it. -/
def Acyclic (r : α → α → Prop) : Prop := ∀ x, ¬TransGen r x x

/-- A chain, which need not have a step, leads to something that lies on a cycle. -/
def LeadsToCycle (r : α → α → Prop) (x : α) : Prop := ∃ y, ReflTransGen r x y ∧ TransGen r y y

theorem acyclic_iff_forall : Acyclic r ↔ ∀ x, ¬LeadsToCycle r x := by
  constructor
  · rintro h x ⟨y, -, hcycle⟩
    exact h y hcycle
  · intro h x hcycle
    exact h x ⟨x, .refl, hcycle⟩

theorem LeadsToCycle.of_rel {x y : α} (hxy : r x y) (h : LeadsToCycle r y) : LeadsToCycle r x := by
  obtain ⟨z, hyz, hcycle⟩ := h
  exact ⟨z, hyz.head hxy, hcycle⟩

/-- What leads to a cycle has a next step, and that leads to a cycle again. -/
theorem LeadsToCycle.exists_rel {x : α} (h : LeadsToCycle r x) :
    ∃ y, r x y ∧ LeadsToCycle r y := by
  obtain ⟨z, hxz, hcycle⟩ := h
  rcases ReflTransGen.cases_head hxz with rfl | ⟨y, hxy, hyz⟩
  · obtain ⟨y, hxy, hyx⟩ := TransGen.head'_iff.mp hcycle
    exact ⟨y, hxy, x, hyx, hcycle⟩
  · exact ⟨y, hxy, z, hyz, hcycle⟩

/-! ## Finitely many -/

/-- What holds of a member of a list whenever it holds of all that the member leads to holds of all
members. -/
theorem Acyclic.induction (h : Acyclic r) {list : List α} (hlist : ∀ x y, r x y → y ∈ list)
    {motive : α → Prop} (hstep : ∀ x ∈ list, (∀ y, r x y → motive y) → motive x) {x : α}
    (hx : x ∈ list) : motive x := by
  have horder : IsStrictOrder α fun y x => TransGen r x y :=
    { irrefl := h, trans := fun _ _ _ hfirst hsecond => hsecond.trans hfirst }
  have hfinite := (List.finite_toSet list).wellFoundedOn (r := fun y x => TransGen r x y)
  refine hfinite.induction hx fun x hx ih => hstep x hx fun y hxy => ?_
  exact ih y (hlist x y hxy) (.single hxy)

/-- If every member of a list has a next step within the list, all of them lead to a cycle. -/
theorem leadsToCycle_of_forall_exists {list : List α} (hlist : ∀ x y, r x y → y ∈ list)
    (h : ∀ x ∈ list, ∃ y, r x y) {x : α} (hx : x ∈ list) : LeadsToCycle r x := by
  -- among those that do not lead to a cycle there is no cycle, so one could go from them by steps
  -- to the end, but there is no end
  let apart (x y : α) : Prop := r x y ∧ ¬LeadsToCycle r x
  have hacyclic : Acyclic apart := by
    intro x hcycle
    obtain ⟨y, ⟨-, hx⟩, -⟩ := TransGen.head'_iff.mp hcycle
    exact hx ⟨x, .refl, TransGen.mono (fun _ _ hstep => hstep.1) _ _ hcycle⟩
  refine hacyclic.induction (fun x y hxy => hlist x y hxy.1) (fun x hx ih => ?_) hx
  obtain ⟨y, hxy⟩ := h x hx
  by_contra hcycle
  exact hcycle ((ih y ⟨hxy, hcycle⟩).of_rel hxy)

/-! ## Taking away what has no next step -/

theorem LeadsToCycle.mono (hle : ∀ x y, r x y → r' x y) {x : α} (h : LeadsToCycle r x) :
    LeadsToCycle r' x := by
  obtain ⟨y, hxy, hcycle⟩ := h
  exact ⟨y, ReflTransGen.mono hle _ _ hxy, TransGen.mono hle _ _ hcycle⟩

/-- Steps to what has no next step are on no way to a cycle. -/
theorem leadsToCycle_congr (hle : ∀ x y, r' x y → r x y)
    (hkept : ∀ x y, r x y → r' x y ∨ ∀ z, ¬r y z) {x : α} :
    LeadsToCycle r x ↔ LeadsToCycle r' x := by
  refine ⟨fun h => ?_, LeadsToCycle.mono hle⟩
  have hstep {x y : α} (hxy : r x y) (hy : LeadsToCycle r y) : r' x y := by
    obtain ⟨z, hyz, -⟩ := hy.exists_rel
    exact (hkept x y hxy).resolve_right fun hend => hend z hyz
  obtain ⟨y, hxy, hcycle⟩ := h
  have hchain {x : α} (hxy : TransGen r x y) : TransGen r' x y := by
    induction hxy using TransGen.head_induction_on with
    | single hxy => exact .single (hstep hxy ⟨y, .refl, hcycle⟩)
    | head hxz hzy ih => exact ih.head (hstep hxz ⟨y, hzy.to_reflTransGen, hcycle⟩)
  rcases reflTransGen_iff_eq_or_transGen.mp hxy with rfl | hxy
  · exact ⟨y, .refl, hchain hcycle⟩
  · exact ⟨y, (hchain hxy).to_reflTransGen, hchain hcycle⟩

end ValidatorGen
