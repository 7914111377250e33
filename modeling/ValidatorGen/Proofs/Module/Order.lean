import Mathlib.Data.List.Perm.Basic
import ValidatorGen.Module.Order
import ValidatorGen.Proofs.Questions

/-!
# What the order of exports guarantees

`loadOrder` returns the exports it was given, each once, and every export stands behind those it
names among its `eagerNames`.  Nothing is said here about names that an expression reads in any
other way.

## Strategy

`arrange` takes one export at a time, and the export it takes is ready: what it reads stands
already.  So the induction is on the number of exports that remain, with the names that stand
already as a parameter; the export taken becomes one of those for the rest.
-/

namespace ValidatorGen.Module

/-- Every export of a list stands behind those that it names, where some names are counted as
standing before the whole list. -/
def ReadsBehind (names placed : List String) (ordered : List (String × Schema)) : Prop :=
  ∀ before entry after, ordered = before ++ entry :: after →
    ∀ name ∈ entry.2.eagerNames, name ∈ names → name ∈ placed ∨ name ∈ before.map Prod.fst

theorem isReady_iff {names placed : List String} {entry : String × Schema} :
    isReady names placed entry = true ↔
      ∀ name ∈ entry.2.eagerNames, name ∈ names → name ∈ placed := by
  unfold isReady
  rw [List.all_eq_true]
  refine forall₂_congr fun name _ => ?_
  by_cases hname : name ∈ names <;> simp [hname]

/-- Exports read behind each other if the first one is ready and the others read behind it. -/
theorem readsBehind_cons_iff {names placed : List String} {entry : String × Schema}
    {others : List (String × Schema)} :
    ReadsBehind names placed (entry :: others) ↔
      isReady names placed entry = true ∧ ReadsBehind names (entry.1 :: placed) others := by
  constructor
  · intro h
    refine ⟨isReady_iff.mpr fun name hname hexport => ?_, ?_⟩
    · exact (h [] entry others rfl name hname hexport).resolve_right List.not_mem_nil
    · rintro before next after rfl name hname hexport
      have hbehind := h (entry :: before) next after rfl name hname hexport
      rwa [List.map_cons, List.mem_cons, ← or_assoc, or_comm (a := name ∈ placed),
        ← List.mem_cons] at hbehind
  · rintro ⟨hready, hothers⟩ before next after heq name hname hexport
    -- the split cuts off nothing, or the first entry with it
    cases before with
    | nil =>
        obtain ⟨rfl, rfl⟩ := List.cons.inj heq
        exact Or.inl (isReady_iff.mp hready name hname hexport)
    | cons first before =>
        obtain ⟨rfl, hrest⟩ := List.cons.inj heq
        rcases hothers before next after hrest name hname hexport with hplaced | hbefore
        · rcases List.mem_cons.mp hplaced with rfl | hplaced
          · exact Or.inr List.mem_cons_self
          · exact Or.inl hplaced
        · exact Or.inr (List.mem_cons_of_mem _ hbefore)

theorem arrange_eq_ok {names placed : List String} {remaining ordered : List (String × Schema)}
    (h : arrange names placed remaining = .ok ordered) :
    ordered.Perm remaining ∧ ReadsBehind names placed ordered := by
  fun_induction arrange names placed remaining generalizing ordered with
  | case1 placed remaining hempty =>
      obtain rfl := Except.ok.inj h
      obtain rfl := List.isEmpty_iff.mp hempty
      refine ⟨List.Perm.refl _, fun before entry after heq => ?_⟩
      exact absurd heq (by simp)
  | case2 placed remaining _ hnone => cases h
  | case3 placed remaining _ entry rest hfound ih =>
      obtain ⟨others, harrange, hordered⟩ := bind_eq_ok_iff.mp h
      obtain rfl := Except.ok.inj hordered
      obtain ⟨hperm, hothers⟩ := ih harrange
      obtain ⟨before, after, rfl, rfl, hready, -⟩ := takeFirst?_eq_some hfound
      refine ⟨?_, readsBehind_cons_iff.mpr ⟨hready, hothers⟩⟩
      exact (hperm.cons entry).trans List.perm_middle.symm

/-- The order is one of the given exports, and a custom validator of the module that an export reads
while the module loads stands before it. -/
theorem loadOrder_eq_ok {exports ordered : List (String × Schema)}
    (h : loadOrder exports = .ok ordered) :
    ordered.Perm exports ∧ ReadsBehind (exports.map Prod.fst) [] ordered :=
  arrange_eq_ok h

end ValidatorGen.Module
