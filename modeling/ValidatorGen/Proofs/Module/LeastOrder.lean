import Mathlib
import ValidatorGen.Proofs.Acyclic
import ValidatorGen.Proofs.Module.Order

/-!
# The order of exports is the first of all that can load

An export depends on the exports that it reads while the module loads, and on itself if it reads
its own name.  `loadOrder` finds an order in which every export stands behind those it depends on
exactly if there are no cycles.  Among all such orders it finds the one that keeps to the module
best: the exports of any other one, compared place by place, come later in the module where the two
first differ.  If there are cycles, it reports the exports that lead to one.  All of this is
`loadOrder_least_unless_tangled`.

## Strategy

While exports are placed, the names that stand already are those of the exports that do not remain
(`Pending`).  So an export is ready exactly if it depends on none that remains.  Taking such an
export away takes away no cycle, and when none is ready, all that remain lead to one.  This carries
the induction for the cycles.  The induction for the least order needs no such invariant: whatever
stands first in another order is ready, and `takeFirst?` has found nothing that is ready before the
export it takes.
-/

namespace ValidatorGen.Module

variable {exports ordered : List (String × Schema)}

/-- An export of a list reads another one of the list, or itself, while the module loads. -/
def DependsOn (exports : List (String × Schema)) (entry other : String × Schema) : Prop :=
  entry ∈ exports ∧ other ∈ exports ∧ other.1 ∈ entry.2.eagerNames

/-- An order of exports in which each of them stands behind all that it depends on. -/
structure LoadsInOrder (exports ordered : List (String × Schema)) : Prop where
  perm : ordered.Perm exports
  behind : ∀ before entry after, ordered = before ++ entry :: after →
    ∀ other, DependsOn exports entry other → other ∈ before

/-- The place of an export in a list, which is found by its name. -/
def position (exports : List (String × Schema)) (entry : String × Schema) : Nat :=
  (exports.map Prod.fst).idxOf entry.1

open Classical in
/-- The exports of a list from which a chain of dependencies leads to a cycle. -/
noncomputable def tangled (exports : List (String × Schema)) : List (String × Schema) :=
  exports.filter fun entry => LeadsToCycle (DependsOn exports) entry

theorem eq_of_fst_eq (hnames : (exports.map Prod.fst).Nodup) {entry other : String × Schema}
    (hentry : entry ∈ exports) (hother : other ∈ exports) (h : entry.1 = other.1) :
    entry = other :=
  List.inj_on_of_nodup_map hnames hentry hother h

theorem loadsInOrder_iff (hnames : (exports.map Prod.fst).Nodup) :
    LoadsInOrder exports ordered ↔
      ordered.Perm exports ∧ ReadsBehind (exports.map Prod.fst) [] ordered := by
  constructor
  · rintro ⟨hperm, hbehind⟩
    refine ⟨hperm, fun before entry after heq name hname hexport => Or.inr ?_⟩
    obtain ⟨other, hother, rfl⟩ := List.mem_map.mp hexport
    have hentry : entry ∈ exports := hperm.mem_iff.mp (by simp [heq])
    exact List.mem_map_of_mem (hbehind before entry after heq other ⟨hentry, hother, hname⟩)
  · rintro ⟨hperm, hbehind⟩
    refine ⟨hperm, fun before entry after heq other hdepends => ?_⟩
    obtain ⟨-, hother, hname⟩ := hdepends
    have hbefore : other.1 ∈ before.map Prod.fst :=
      (hbehind before entry after heq other.1 hname (List.mem_map_of_mem hother)).resolve_left
        List.not_mem_nil
    obtain ⟨same, hsame, heq'⟩ := List.mem_map.mp hbefore
    have hexport : same ∈ exports := hperm.mem_iff.mp (by simp [heq, hsame])
    rwa [← eq_of_fst_eq hnames hexport hother heq']

/-! ## Cycles -/

/-- The exports that remain have names of their own, and all other names stand already. -/
structure Pending (names placed : List String) (remaining : List (String × Schema)) : Prop where
  nodup : (remaining.map Prod.fst).Nodup
  subset : ∀ entry ∈ remaining, entry.1 ∈ names
  mem_placed_iff : ∀ name ∈ names, name ∈ placed ↔ name ∉ remaining.map Prod.fst

variable {names placed : List String} {remaining before after : List (String × Schema)}
  {entry : String × Schema}

/-- At the start everything remains. -/
theorem pending_nil (hnames : (exports.map Prod.fst).Nodup) :
    Pending (exports.map Prod.fst) [] exports where
  nodup := hnames
  subset _ hentry := List.mem_map_of_mem hentry
  mem_placed_iff _ hname := iff_of_false List.not_mem_nil (not_not.mpr hname)

/-- An export is ready if it depends on nothing that remains. -/
theorem Pending.isReady_iff (h : Pending names placed remaining) (hentry : entry ∈ remaining) :
    isReady names placed entry = true ↔ ∀ other, ¬DependsOn remaining entry other := by
  rw [Module.isReady_iff]
  constructor
  · rintro hready other ⟨-, hother, hname⟩
    have hplaced := hready other.1 hname (h.subset other hother)
    exact (h.mem_placed_iff other.1 (h.subset other hother)).mp hplaced
      (List.mem_map_of_mem hother)
  · intro hnone name hname hexport
    rw [h.mem_placed_iff name hexport]
    intro hremains
    obtain ⟨other, hother, rfl⟩ := List.mem_map.mp hremains
    exact hnone other ⟨hentry, hother, hname⟩

/-- Placing an export leaves the others. -/
theorem Pending.place (h : Pending names placed (before ++ entry :: after)) :
    Pending names (entry.1 :: placed) (before ++ after) := by
  have hsublist : (before ++ after).Sublist (before ++ entry :: after) :=
    (List.sublist_cons_self entry after).append_left before
  have hnodup := h.nodup
  rw [List.map_append, List.map_cons, List.nodup_middle, ← List.map_append, List.nodup_cons]
    at hnodup
  refine ⟨hnodup.2, fun other hother => h.subset other (hsublist.subset hother), ?_⟩
  intro name hname
  have hremains : name ∈ (before ++ entry :: after).map Prod.fst ↔
      name = entry.1 ∨ name ∈ (before ++ after).map Prod.fst := by
    simp only [List.map_append, List.map_cons, List.mem_append, List.mem_cons]
    tauto
  rw [List.mem_cons, h.mem_placed_iff name hname, hremains]
  by_cases heq : name = entry.1
  · subst heq
    exact iff_of_true (Or.inl rfl) hnodup.1
  · simp [heq]

/-- What depends on nothing that remains is on no way to a cycle. -/
theorem leadsToCycle_place (h : ∀ other, ¬DependsOn (before ++ entry :: after) entry other)
    {x : String × Schema} :
    LeadsToCycle (DependsOn (before ++ entry :: after)) x ↔
      LeadsToCycle (DependsOn (before ++ after)) x := by
  have hmem (x : String × Schema) :
      x ∈ before ++ entry :: after ↔ x = entry ∨ x ∈ before ++ after := by
    simp only [List.mem_append, List.mem_cons]
    tauto
  refine leadsToCycle_congr (fun x y hxy => ?_) fun x y hxy => ?_
  · exact ⟨(hmem x).mpr (Or.inr hxy.1), (hmem y).mpr (Or.inr hxy.2.1), hxy.2.2⟩
  · obtain ⟨hx, hy, hname⟩ := id hxy
    rcases (hmem x).mp hx with rfl | hx
    · exact absurd hxy (h y)
    · rcases (hmem y).mp hy with rfl | hy
      · exact Or.inr h
      · exact Or.inl ⟨hx, hy, hname⟩

theorem tangled_place (h : ∀ other, ¬DependsOn (before ++ entry :: after) entry other) :
    tangled (before ++ entry :: after) = tangled (before ++ after) := by
  have hentry : ¬LeadsToCycle (DependsOn (before ++ entry :: after)) entry := by
    intro hcycle
    obtain ⟨other, hother, -⟩ := hcycle.exists_rel
    exact h other hother
  unfold tangled
  rw [List.filter_append, List.filter_cons_of_neg (by simpa using hentry), ← List.filter_append]
  exact List.filter_congr fun x _ => decide_eq_decide.mpr (leadsToCycle_place h)

theorem mem_tangled_iff : entry ∈ tangled exports ↔
    entry ∈ exports ∧ LeadsToCycle (DependsOn exports) entry := by
  simp [tangled]

theorem tangled_eq_nil_iff : tangled exports = [] ↔ Acyclic (DependsOn exports) := by
  rw [acyclic_iff_forall, List.eq_nil_iff_forall_not_mem]
  refine forall_congr' fun entry => not_congr ?_
  rw [mem_tangled_iff]
  refine and_iff_right_of_imp fun hcycle => ?_
  obtain ⟨other, hother, -⟩ := hcycle.exists_rel
  exact hother.1

theorem Pending.tangled_of_ok (h : Pending names placed remaining)
    (hok : arrange names placed remaining = .ok ordered) : tangled remaining = [] := by
  fun_induction arrange names placed remaining generalizing ordered with
  | case1 placed remaining hempty =>
      obtain rfl := List.isEmpty_iff.mp hempty
      rfl
  | case2 placed remaining _ hnone => cases hok
  | case3 placed remaining _ entry rest hfound ih =>
      obtain ⟨others, harrange, -⟩ := bind_eq_ok_iff.mp hok
      obtain ⟨before, after, rfl, rfl, hready, -⟩ := takeFirst?_eq_some hfound
      rw [h.isReady_iff (by simp)] at hready
      rw [tangled_place hready]
      exact ih h.place harrange

/-- What cannot be placed leads to a cycle, and is all that does. -/
theorem Pending.tangled_of_error (h : Pending names placed remaining) {stuck : List String}
    (herror : arrange names placed remaining = .error stuck) :
    tangled remaining ≠ [] ∧ stuck = (tangled remaining).map Prod.fst := by
  fun_induction arrange names placed remaining with
  | case1 placed remaining hempty => cases herror
  | case2 placed remaining hempty hnone =>
      obtain rfl := Except.error.inj herror
      -- nothing is ready, so every remaining entry depends on another one that remains
      have hnext : ∀ entry ∈ remaining, ∃ other, DependsOn remaining entry other := by
        intro entry hentry
        have hready := takeFirst?_eq_none_iff.mp hnone entry hentry
        rw [Bool.eq_false_iff, ne_eq, h.isReady_iff hentry] at hready
        exact not_forall_not.mp hready
      have hall : tangled remaining = remaining := List.filter_eq_self.mpr fun entry hentry => by
        simpa using leadsToCycle_of_forall_exists (fun _ _ hdepends => hdepends.2.1) hnext hentry
      rw [hall]
      exact ⟨fun hnil => hempty (List.isEmpty_iff.mpr hnil), rfl⟩
  | case3 placed remaining _ entry rest hfound ih =>
      obtain ⟨before, after, rfl, rfl, hready, -⟩ := takeFirst?_eq_some hfound
      rw [h.isReady_iff (by simp)] at hready
      rw [tangled_place hready]
      refine ih h.place ?_
      cases harrange : arrange names (entry.1 :: placed) (before ++ after) with
      | ok others => simp [harrange, bind, Except.bind, pure, Except.pure] at herror
      | error others => simpa [harrange, bind, Except.bind] using herror

/-! ## The least order -/

/-- No order that can load differs from the one that is found by an earlier export. -/
theorem least_of_arrange_eq_ok {place : String × Schema → Nat}
    (hplace : remaining.Pairwise fun entry other => place entry < place other)
    (hok : arrange names placed remaining = .ok ordered) {other : List (String × Schema)}
    (hperm : other.Perm remaining) (hbehind : ReadsBehind names placed other) :
    ordered = other ∨ List.Lex (· < ·) (ordered.map place) (other.map place) := by
  fun_induction arrange names placed remaining generalizing ordered other with
  | case1 placed remaining hempty =>
      obtain rfl := Except.ok.inj hok
      obtain rfl := List.isEmpty_iff.mp hempty
      exact Or.inl (List.perm_nil.mp hperm).symm
  | case2 placed remaining _ hnone => cases hok
  | case3 placed remaining _ entry rest hfound ih =>
      obtain ⟨others, harrange, hordered⟩ := bind_eq_ok_iff.mp hok
      obtain rfl := Except.ok.inj hordered
      obtain ⟨before, after, rfl, rfl, -, hbefore⟩ := takeFirst?_eq_some hfound
      rw [List.pairwise_append, List.pairwise_cons] at hplace
      obtain ⟨hbeforePlace, ⟨hentryPlace, hafterPlace⟩, hcross⟩ := hplace
      have hrest : (before ++ after).Pairwise fun entry other => place entry < place other :=
        List.pairwise_append.mpr ⟨hbeforePlace, hafterPlace, fun x hx y hy =>
          hcross x hx y (List.mem_cons_of_mem _ hy)⟩
      -- the other order begins with an entry that stands before the one taken, with it, or behind
      -- it
      cases other with
      | nil => exact absurd hperm.length_eq (by simp)
      | cons first tail =>
          rw [readsBehind_cons_iff] at hbehind
          have hfirst : first ∈ before ++ entry :: after :=
            hperm.mem_iff.mp List.mem_cons_self
          rcases List.mem_append.mp hfirst with hearlier | hfirst
          · exact absurd hbehind.1 (by simp [hbefore first hearlier])
          · rcases List.mem_cons.mp hfirst with rfl | hlater
            · have htail : tail.Perm (before ++ after) :=
                (hperm.trans List.perm_middle).cons_inv
              rcases ih hrest harrange htail hbehind.2 with rfl | hlex
              · exact Or.inl rfl
              · exact Or.inr (.cons hlex)
            · exact Or.inr (.rel (hentryPlace first hlater))

/-- An order that can load is left as it is. -/
theorem arrange_eq_self (hbehind : ReadsBehind names placed remaining) :
    arrange names placed remaining = .ok remaining := by
  induction remaining generalizing placed with
  | nil => simp [arrange]
  | cons entry rest ih =>
      rw [readsBehind_cons_iff] at hbehind
      have hfound : takeFirst? (isReady names placed) (entry :: rest) = some (entry, rest) := by
        simp [takeFirst?, hbehind.1]
      rw [arrange]
      simp only [List.isEmpty_cons, Bool.false_eq_true, if_false]
      split
      · next hnone => simp [hfound] at hnone
      · next found =>
        cases hfound.symm.trans found
        rw [ih hbehind.2]
        rfl

/-- Exports stand in the order of their positions. -/
theorem pairwise_position (hnames : (exports.map Prod.fst).Nodup) :
    exports.Pairwise fun entry other => position exports entry < position exports other := by
  rw [List.pairwise_iff_getElem]
  intro i j hi hj hlt
  have hposition {k : Nat} (hk : k < exports.length) : position exports exports[k] = k := by
    have hlength : k < (exports.map Prod.fst).length := by rwa [List.length_map]
    have hget : exports[k].1 = (exports.map Prod.fst)[k] := by rw [List.getElem_map]
    rw [position, hget, hnames.idxOf_getElem]
  rwa [hposition hi, hposition hj]

/-! ## Any list of exports -/

/-- An order of exports is found exactly if there are no cycles.  It is one in which exports stand
behind all they depend on, and the first of those in the order of the module; the module's own order
is kept if it is such an order.  What is reported otherwise are the exports that lead to a cycle. -/
theorem loadOrder_least_unless_tangled (hnames : (exports.map Prod.fst).Nodup) :
    ((∃ ordered, loadOrder exports = .ok ordered) ↔ Acyclic (DependsOn exports)) ∧
    (∀ ordered, loadOrder exports = .ok ordered →
      LoadsInOrder exports ordered ∧ ∀ other, LoadsInOrder exports other →
        ordered = other ∨
          List.Lex (· < ·) (ordered.map (position exports)) (other.map (position exports))) ∧
    (LoadsInOrder exports exports → loadOrder exports = .ok exports) ∧
    (∀ stuck, loadOrder exports = .error stuck → stuck = (tangled exports).map Prod.fst) := by
  have hpending := pending_nil hnames
  refine ⟨⟨?_, ?_⟩, ?_, ?_, ?_⟩
  · rintro ⟨ordered, hok⟩
    exact tangled_eq_nil_iff.mp (hpending.tangled_of_ok hok)
  · intro hacyclic
    cases horder : loadOrder exports with
    | ok ordered => exact ⟨ordered, rfl⟩
    | error stuck =>
        exact absurd (tangled_eq_nil_iff.mpr hacyclic) (hpending.tangled_of_error horder).1
  · intro ordered hok
    refine ⟨(loadsInOrder_iff hnames).mpr (loadOrder_eq_ok hok), fun other hother => ?_⟩
    obtain ⟨hperm, hbehind⟩ := (loadsInOrder_iff hnames).mp hother
    exact least_of_arrange_eq_ok (pairwise_position hnames) hok hperm hbehind
  · intro hinOrder
    exact arrange_eq_self ((loadsInOrder_iff hnames).mp hinOrder).2
  · intro stuck herror
    exact (hpending.tangled_of_error herror).2

/-- Items come before the list of them; the body of a function is left for its calls. -/
def itemExports : List (String × Schema) := [
  ("deItems", .list (.custom "deItem" [])), ("deTag", .string),
  ("deItem", .object (.named "Item") [] [("parts", .custom "deItems" [])])]

/-- Two exports that read each other, one that reads the first of them, and one that reads none. -/
def knottedExports : List (String × Schema) := [
  ("deA", .list (.custom "deB" [])), ("deB", .mapping .string (.custom "deA" [])),
  ("deC", .custom "deA" []), ("deD", .list (.custom "deTag" []))]

/-- An order is found for the items, and it is not that of the module; for the knot there is
none. -/
theorem loadOrder_itemExports_knottedExports :
    (∃ ordered, loadOrder itemExports = .ok ordered ∧
      ordered.map Prod.fst = ["deTag", "deItem", "deItems"] ∧ Acyclic (DependsOn itemExports) ∧
      LoadsInOrder itemExports ordered ∧ ∀ other, LoadsInOrder itemExports other →
        ordered = other ∨ List.Lex (· < ·) (ordered.map (position itemExports))
          (other.map (position itemExports))) ∧
    loadOrder knottedExports = .error ["deA", "deB", "deC"] ∧
    ¬Acyclic (DependsOn knottedExports) ∧
    (tangled knottedExports).map Prod.fst = ["deA", "deB", "deC"] := by
  have hfound : (loadOrder itemExports).toOption.map (·.map Prod.fst) =
      some ["deTag", "deItem", "deItems"] := by decide +kernel
  have herror : loadOrder knottedExports = .error ["deA", "deB", "deC"] := by cbv
  have hitems : (itemExports.map Prod.fst).Nodup := by decide
  have hknotted : (knottedExports.map Prod.fst).Nodup := by decide
  obtain ⟨hacyclic, hleast, -, -⟩ := loadOrder_least_unless_tangled hitems
  obtain ⟨hacyclic', -, -, hstuck⟩ := loadOrder_least_unless_tangled hknotted
  obtain ⟨ordered, hok, hnames⟩ := exists_eq_ok_of_map_toOption hfound
  refine ⟨⟨ordered, hok, hnames, hacyclic.mp ⟨ordered, hok⟩, hleast ordered hok⟩, herror,
    fun h => ?_, (hstuck _ herror).symm⟩
  obtain ⟨other, hother⟩ := hacyclic'.mpr h
  cases herror.symm.trans hother

end ValidatorGen.Module
