import ValidatorGen.Schema.Scope

/-!
# The order of exports

An exported validator may read others of its module while the module loads, and has to stand
behind them. `loadOrder` keeps the given order as far as it can: it always goes on with the first
export that reads nothing but what stands already. If there is none, exports read each other.
-/

namespace ValidatorGen.Module

/-- The first element that satisfies a test, and the list without it. -/
def takeFirst? {α : Type} (test : α → Bool) : List α → Option (α × List α)
  | [] => none
  | head :: tail =>
    if test head then some (head, tail)
    else (takeFirst? test tail).map fun found => (found.1, head :: found.2)

theorem takeFirst?_eq_none_iff {α : Type} {test : α → Bool} {list : List α} :
    takeFirst? test list = none ↔ ∀ x ∈ list, test x = false := by
  induction list with
  | nil => simp [takeFirst?]
  | cons head tail ih => cases h : test head <;> simp [takeFirst?, h, ih]

/-- What is taken satisfies the test, nothing before it does, and the rest keeps its order. -/
theorem takeFirst?_eq_some {α : Type} {test : α → Bool} {found : α} {list rest : List α}
    (h : takeFirst? test list = some (found, rest)) :
    ∃ before after, list = before ++ found :: after ∧ rest = before ++ after ∧
      test found = true ∧ ∀ x ∈ before, test x = false := by
  induction list generalizing rest with
  | nil => simp [takeFirst?] at h
  | cons head tail ih =>
    unfold takeFirst? at h
    split at h
    · next htest =>
      obtain ⟨rfl, rfl⟩ := Prod.mk.inj (Option.some.inj h)
      exact ⟨[], tail, rfl, rfl, htest, by simp⟩
    · next htest =>
      obtain ⟨⟨found', rest'⟩, htail, heq⟩ := Option.map_eq_some_iff.mp h
      obtain ⟨rfl, rfl⟩ := Prod.mk.inj heq
      obtain ⟨before, after, rfl, rfl, hfound, hbefore⟩ := ih htail
      refine ⟨head :: before, after, rfl, rfl, hfound, ?_⟩
      exact List.forall_mem_cons.mpr ⟨Bool.eq_false_iff.mpr htest, hbefore⟩

theorem length_of_takeFirst? {α : Type} {test : α → Bool} {found : α} {list rest : List α}
    (h : takeFirst? test list = some (found, rest)) : list.length = rest.length + 1 := by
  obtain ⟨before, after, rfl, rfl, -, -⟩ := takeFirst?_eq_some h
  simp only [List.length_append, List.length_cons]
  omega

/-- Whether everything that an export reads of its module stands already. -/
def isReady (names placed : List String) (entry : String × Schema) : Bool :=
  entry.2.eagerNames.all fun name => !names.contains name || placed.contains name

/-- Places the exports that remain behind those that stand already. If none of them can be placed
they are reported. -/
def arrange (names placed : List String) (remaining : List (String × Schema)) :
    Except (List String) (List (String × Schema)) :=
  if remaining.isEmpty then .ok []
  else
    match _found : takeFirst? (isReady names placed) remaining with
    | none => .error (remaining.map Prod.fst)
    | some (entry, rest) => do
      let others ← arrange names (entry.1 :: placed) rest
      return entry :: others
termination_by remaining.length
decreasing_by have := length_of_takeFirst? _found; omega

/-- The exports in an order in which the module can load, or the names of those that cannot be
ordered. -/
def loadOrder (exports : List (String × Schema)) :
    Except (List String) (List (String × Schema)) :=
  arrange (exports.map Prod.fst) [] exports

end ValidatorGen.Module
