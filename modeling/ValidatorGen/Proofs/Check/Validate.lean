import ValidatorGen.Proofs.Check.Run

/-!
# Runs without custom validators

`validate` runs a schema on its own and always answers.  `run` may look custom validators up and
need not come to an end.  Where no custom validator is known, `run` comes to an end all the same and
answers what `validate` answers (`run_nil`), so all that is known of runs holds of `validate` too.

The checkers of lists and mappings are the same definition in both monads, and so is `runWith`; the
lemmas below say of each that asking total validators in `Option` gives their answer in `Id`.
-/

namespace ValidatorGen.Check

variable {α β : Type}

theorem bind_some {first : Id α} {next : α → Option β} {next' : α → Id β}
    (h : ∀ value, next value = some (next' value)) :
    some first >>= next = some (first >>= next') :=
  h first

theorem mapM_some (f : α → β) (list : List α) :
    (list.mapM fun x => some (f x)) = some (list.mapM (m := Id) f) := by
  induction list with
  | nil => rfl
  | cons head tail ih =>
      rw [List.mapM_cons, List.mapM_cons, ih]
      rfl

theorem list_some (element : Input → Outcome) (x : Input) :
    list (fun y => some (element y)) x = some (list (m := Id) element x) := by
  unfold list
  split
  · rw [mapM_some]
    rfl
  · rfl

theorem mapping_some (key value : Input → Outcome) (x : Input) :
    mapping (fun y => some (key y)) (fun y => some (value y)) x =
      some (mapping (m := Id) key value x) := by
  unfold mapping
  split
  · rfl
  · next properties _ =>
    rw [mapM_some]
    refine bind_some fun outcomes => ?_
    split
    · rfl
    · rw [mapM_some]
      refine bind_some fun outcomes => ?_
      split <;> rfl

variable {custom : String → Input → Outcome}

theorem runFields_some {isOptional : Bool} {members : List (String × Json)}
    {fields : List (String × Schema)}
    (h : ∀ field ∈ fields, ∀ x, runWith (fun name y => some (custom name y)) field.2 x =
      some (runWith (m := Id) custom field.2 x)) (result : Table Json) :
    runFields (fun name y => some (custom name y)) isOptional members fields result =
      some (runFields (m := Id) custom isOptional members fields result) := by
  induction fields generalizing result with
  | nil => rfl
  | cons entry fields ih =>
      rw [List.forall_mem_cons] at h
      simp only [runFields, h.1]
      split
      · exact ih h.2 result
      · refine bind_some fun outcome => ?_
        split
        · rfl
        · exact ih h.2 _

/-- Custom validators that always answer let every schema answer. -/
theorem runWith_some (schema : Schema) : ∀ x : Input,
    runWith (fun name y => some (custom name y)) schema x =
      some (runWith (m := Id) custom schema x) := by
  induction schema with
  | bool | number | string | filePath => exact fun _ => rfl
  | constant type value => exact fun _ => rfl
  | enumeration type values => exact fun _ => rfl
  -- the required fields first, then the optional ones, then the record
  | object type fields optional ihfields ihoptional =>
      intro x
      simp only [runWith]
      split
      · rfl
      · next members _ =>
        rw [runFields_some ihfields]
        refine bind_some fun required => ?_
        split
        · rfl
        · rw [runFields_some ihoptional]
          refine bind_some fun all => ?_
          split <;> rfl
  | list element ih =>
      intro x
      simp only [runWith]
      rw [funext ih, list_some]
  | mapping key value ihkey ihvalue =>
      intro x
      simp only [runWith]
      rw [funext ihkey, funext ihvalue, mapping_some]
  | sum type discriminant discriminantType variants ih =>
      intro x
      simp only [runWith]
      split
      · rfl
      · split
        · rfl
        · rw [runVariant_eq, runVariant_eq]
          split
          · next variant hfind => exact ih variant (List.mem_of_find?_eq_some hfind) x
          · rfl
  | custom name types => exact fun _ => rfl

/-- Where no custom validator is known, a run comes to an end and answers what `validate` does. -/
theorem run_nil (schema : Schema) (x : Input) : run [] schema x = some (validate schema x) := by
  have hsteps : stepsFor [] x = 0 := Nat.zero_mul _
  rw [run, runWithin, hsteps]
  exact runWith_some schema x

end ValidatorGen.Check
