import ValidatorGen.Proofs.Acyclic
import ValidatorGen.Proofs.Check.Validate

/-!
# Runs come to an end where recursion is guarded

Custom validators may refer to each other and to themselves.  Most references are guarded: they
stand in a list, a mapping or an object and see only what lies below the value.  A reference that
sees the value itself is the schema of the validator or stands in variants of sums only
(`handedOn`).  If no chain of such references leads from a name back to it (`Guarded`), every run
comes to an end, on every schema and every input (`exists_run_of_guarded`), although the references
in lists, mappings and objects may be as recursive as they please.

## Strategy

The induction is on the depth of the input.  Below it, every custom validator has an outcome by
hypothesis.  At the input itself, the registered names are finitely many, so the references that see
the value are well-founded, and a name has an outcome once those have that it leads to.
`exists_runWith` is the step from custom validators to a schema.  It compares the run with one whose
custom validators always answer, which needs no further induction over schemas.
-/

namespace ValidatorGen.Check

variable {named : Table Schema}

/-- A registered name leads to another one that its validator hands its value as it is. -/
def LeadsTo (named : Table Schema) (name next : String) : Prop :=
  next ∈ named.names ∧ ∃ schema, named.get? name = some schema ∧ next ∈ handedOn schema

/-- No custom validator leads back to itself without looking below the value. -/
def Guarded (named : Table Schema) : Prop :=
  ∀ name, ¬Relation.TransGen (LeadsTo named) name name

/-- A number for each name that gets smaller along every reference tells that recursion is
guarded. -/
theorem guarded_of_lt (rank : String → Nat)
    (h : ∀ entry ∈ named, ∀ next ∈ handedOn entry.2, next ∈ named.names →
      rank next < rank entry.1) : Guarded named := by
  have hlt {name last : String} (hpath : Relation.TransGen (LeadsTo named) name last) :
      rank last < rank name := by
    have hedge {name next : String} (hnext : LeadsTo named name next) : rank next < rank name := by
      obtain ⟨hregistered, schema, hschema, hhanded⟩ := hnext
      exact h (name, schema) (Table.mem_of_get? hschema) next hhanded hregistered
    induction hpath with
    | single hnext => exact hedge hnext
    | tail _ hnext ih => exact (hedge hnext).trans ih
  exact fun name hcycle => (hlt hcycle).false

/-! ## One schema -/

/-- A schema has an outcome if the custom validators have one that it can ask. -/
theorem exists_runWith {custom : String → Input → Run} {schema : Schema} {x : Input}
    (hx : ∀ name ∈ handedOn schema, (custom name x).isSome = true)
    (hbelow : ∀ name y, inputDepth y < inputDepth x → (custom name y).isSome = true) :
    ∃ outcome, runWith custom schema x = some outcome := by
  -- where `custom` has no outcome any answer will do, since the run does not ask for it
  have hrefines {name : String} {y : Input} (h : (custom name y).isSome = true) :
      Refines (some ((custom name y).getD (.error .unreachable))) (custom name y) := by
    obtain ⟨outcome, houtcome⟩ := Option.isSome_iff_exists.mp h
    rw [houtcome]
    exact Refines.refl _
  have hrun := runWith_refines schema (fun name hname => hrefines (hx name hname))
    fun name y hy => hrefines (hbelow name y hy)
  exact ⟨_, hrun _ (runWith_some schema x)⟩

/-! ## All names -/

/-- What holds of a registered name whenever it holds of the names that it leads to holds of all
registered names. -/
theorem Guarded.induction (h : Guarded named) {motive : String → Prop}
    (hstep : ∀ name ∈ named.names, (∀ next, LeadsTo named name next → motive next) → motive name)
    {name : String} (hname : name ∈ named.names) : motive name :=
  Acyclic.induction h (fun _ _ hnext => hnext.1) hstep hname

/-- At an input, custom validators have an outcome if they have one everywhere below. -/
theorem Guarded.isSome_customs (h : Guarded named) {x : Input}
    (hbelow : ∀ name y, inputDepth y < inputDepth x → (customs named name y).isSome = true)
    (name : String) : (customs named name x).isSome = true := by
  have hunknown {name : String} (hname : name ∉ named.names) :
      (customs named name x).isSome = true := by
    rw [customs, run_custom_of_get?_eq_none (Table.get?_eq_none_iff.mpr hname)]
    rfl
  by_cases hname : name ∈ named.names
  · refine h.induction (motive := fun name => (customs named name x).isSome = true) ?_ hname
    intro name hname ih
    obtain ⟨schema, hschema⟩ : ∃ schema, named.get? name = some schema := by
      rw [← Option.ne_none_iff_exists', ne_eq, Table.get?_eq_none_iff, not_not]
      exact hname
    have hnext : ∀ next ∈ handedOn schema, (customs named next x).isSome = true := by
      intro next hnext
      by_cases hregistered : next ∈ named.names
      · exact ih next ⟨hregistered, schema, hschema, hnext⟩
      · exact hunknown hregistered
    rw [customs, run_custom_of_get? hschema, ← runWith_customs]
    exact Option.isSome_iff_exists.mpr (exists_runWith hnext hbelow)
  · exact hunknown hname

theorem Guarded.isSome_customs_all (h : Guarded named) (name : String) (x : Input) :
    (customs named name x).isSome = true := by
  induction hdepth : inputDepth x using Nat.strong_induction_on generalizing name x with
  | _ depth ih =>
      subst hdepth
      exact h.isSome_customs (fun name y hy => ih _ hy name y rfl) name

/-- Where recursion is guarded, every run comes to an end. -/
theorem exists_run_of_guarded (h : Guarded named) (schema : Schema) (x : Input) :
    ∃ outcome, run named schema x = some outcome := by
  rw [← runWith_customs]
  exact exists_runWith (fun name _ => h.isSome_customs_all name x)
    fun name y _ => h.isSome_customs_all name y

-- without the guard there may be no outcome
example : run [("deLoop", .custom "deLoop" [])] (.custom "deLoop" []) none = none := rfl

/-- Nodes of trees, which are leaves or have children.  Both validators lead to themselves, but the
reference that sees the value itself leads from nodes to branches only. -/
def nodeTable : Table Schema := [
  ("deNode", .sum (.named "Node") "kind" (.named "NodeKind")
    [("leaf", .object (.named "Leaf") [("label", .string)] []), ("branch", .custom "deBranch" [])]),
  ("deBranch", .object (.named "Branch") []
    [("children", .list (.custom "deNode" [])), ("next", .custom "deBranch" [])])]

theorem guarded_nodeTable : Guarded nodeTable :=
  guarded_of_lt (fun name => if name = "deNode" then 1 else 0) (by decide)

/-- A branch with a leaf and a part that is no node. -/
def branchJson : Json :=
  .object [("kind", .string "branch"),
    ("children", .array [.object [("kind", .string "leaf"), ("label", .string "a")], .null])]

theorem exists_run_nodeTable :
    Guarded nodeTable ∧ ∃ outcome, run nodeTable (.custom "deNode" []) (some branchJson) =
      some outcome :=
  ⟨guarded_nodeTable, exists_run_of_guarded guarded_nodeTable _ _⟩

end ValidatorGen.Check
