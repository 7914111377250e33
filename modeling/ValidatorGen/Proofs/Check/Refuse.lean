import ValidatorGen.Proofs.Check.Accept

/-!
# When a validator refuses

`Accept` says which inputs a validator accepts.  This file says which it refuses, and why: an object
for the first of its fields that is refused (`runFields_eq_error_iff`), a list and a mapping for all
elements that are (`collect_eq_error_iff`), and a sum for its discriminant, if this is no key or no
text (`runWith_sum_of_notMem`, `runWith_sum_of_none`).
-/

namespace ValidatorGen.Check

variable {custom : String → Input → Run}

/-! ## Lists and mappings -/

theorem collect_eq_error_iff {outcomes : List Outcome} {reason : Refusal} :
    collect outcomes = .error reason ↔
      refused 0 outcomes ≠ [] ∧ reason = .elements (refused 0 outcomes) := by
  unfold collect
  simp only [List.isEmpty_iff]
  split
  · next hnone => simp [hnone]
  · next hsome => simp [hsome, eq_comm]

/-! ## Objects -/

/-- A field is passed over, or it is accepted. -/
def Passes (custom : String → Input → Run) (isOptional : Bool) (members : List (String × Json))
    (field : String × Schema) : Prop :=
  (isOptional && isAbsent (Table.get? members field.1)) = true ∨
    ∃ value, runWith custom field.2 (Table.get? members field.1) = some (.ok value)

/-- A field is looked at and refused. -/
structure IsRefused (custom : String → Input → Run) (isOptional : Bool)
    (members : List (String × Json)) (field : String × Schema) (reason : Refusal) : Prop where
  lookedAt : (isOptional && isAbsent (Table.get? members field.1)) = false
  refused : runWith custom field.2 (Table.get? members field.1) = some (.error reason)

variable {isOptional : Bool} {members : List (String × Json)} {field : String × Schema}
  {fields : List (String × Schema)} {result : Table Json}

theorem exists_runFields_cons (h : Passes custom isOptional members field)
    (fields : List (String × Schema)) (result : Table Json) :
    ∃ next, runFields custom isOptional members (field :: fields) result =
      runFields custom isOptional members fields next := by
  obtain ⟨name, schema⟩ := field
  simp only [runFields]
  by_cases hskip : (isOptional && isAbsent (Table.get? members name)) = true
  · exact ⟨result, if_pos hskip⟩
  · obtain ⟨value, hvalue⟩ := h.resolve_left hskip
    refine ⟨result.set name value, ?_⟩
    rw [if_neg hskip, hvalue]
    rfl

theorem exists_runFields_append {before : List (String × Schema)}
    (h : ∀ earlier ∈ before, Passes custom isOptional members earlier)
    (fields : List (String × Schema)) (result : Table Json) :
    ∃ next, runFields custom isOptional members (before ++ fields) result =
      runFields custom isOptional members fields next := by
  induction before generalizing result with
  | nil => exact ⟨result, rfl⟩
  | cons first before ih =>
      rw [List.forall_mem_cons] at h
      obtain ⟨next, hnext⟩ := exists_runFields_cons h.1 (before ++ fields) result
      obtain ⟨last, hlast⟩ := ih h.2 next
      exact ⟨last, by rw [List.cons_append, hnext, hlast]⟩

theorem runFields_cons_of_isRefused {reason : Refusal}
    (h : IsRefused custom isOptional members field reason) (fields : List (String × Schema))
    (result : Table Json) :
    runFields custom isOptional members (field :: fields) result =
      some (.error (.member field.1 (.field field.1 reason))) := by
  obtain ⟨name, schema⟩ := field
  simp only [runFields]
  rw [if_neg (Bool.eq_false_iff.mp h.lookedAt), h.refused]
  rfl

/-- Fields are refused for the first of them that does not pass. -/
theorem runFields_eq_error_iff {refusal : Refusal} :
    runFields custom isOptional members fields result = some (.error refusal) ↔
      ∃ before field after reason, fields = before ++ field :: after ∧
        (∀ earlier ∈ before, Passes custom isOptional members earlier) ∧
        IsRefused custom isOptional members field reason ∧
        refusal = .member field.1 (.field field.1 reason) := by
  constructor
  · intro h
    induction fields generalizing result with
    | nil => simp [runFields] at h
    | cons first fields ih =>
        -- the first field that does not pass is the one that is refused
        by_cases hfirst : Passes custom isOptional members first
        · obtain ⟨next, hnext⟩ := exists_runFields_cons hfirst fields result
          obtain ⟨before, field, after, reason, rfl, hbefore, hfield⟩ := ih (hnext ▸ h)
          exact ⟨first :: before, field, after, reason, rfl,
            List.forall_mem_cons.mpr ⟨hfirst, hbefore⟩, hfield⟩
        · obtain ⟨hlooked, hrun⟩ := not_or.mp hfirst
          rw [Bool.not_eq_true] at hlooked
          cases houtcome : runWith custom first.2 (Table.get? members first.1) with
          -- a run without an outcome refuses nothing
          | none => simp [runFields, hlooked, houtcome] at h
          | some outcome =>
              cases outcome with
              | ok value => exact absurd ⟨value, houtcome⟩ hrun
              | error reason =>
                  have hrefused : IsRefused custom isOptional members first reason :=
                    ⟨hlooked, houtcome⟩
                  rw [runFields_cons_of_isRefused hrefused] at h
                  exact ⟨[], first, fields, reason, rfl, List.forall_mem_nil _, hrefused,
                    (Except.error.inj (Option.some.inj h)).symm⟩
  · rintro ⟨before, field, after, reason, rfl, hbefore, hfield, rfl⟩
    obtain ⟨next, hnext⟩ := exists_runFields_append hbefore (field :: after) result
    rw [hnext, runFields_cons_of_isRefused hfield]

/-- An object is refused if it has no members to look at, or for one of its fields: the required
ones come first, and the optional ones are reached if all of these are accepted. -/
theorem runWith_object_eq_error_iff {type : FlowType} {optional : List (String × Schema)}
    {x : Input} {refusal : Refusal} :
    runWith custom (.object type fields optional) x = some (.error refusal) ↔
      members? x = .error refusal ∨ ∃ members, members? x = .ok members ∧
        (runFields custom false members fields [] = some (.error refusal) ∨
          ∃ table, runFields custom false members fields [] = some (.ok table) ∧
            runFields custom true members optional table = some (.error refusal)) := by
  simp only [runWith]
  cases hmembers : members? x with
  | error reason => simp
  | ok members =>
      cases hfields : runFields custom false members fields [] with
      | none => simp [hfields]
      | some outcome =>
          cases outcome with
          | error reason => simp [hfields]
          | ok table =>
              cases hoptional : runFields custom true members optional table with
              | none => simp [hfields, hoptional]
              | some outcome => cases outcome <;> simp [hfields, hoptional]

/-! ## Sums -/

theorem enumeration_of_notMem {type : FlowType} {values : List String} {text : String}
    (h : text ∉ values) :
    enumeration type values (some (.string text)) =
      .error (.notListed (some (.string text)) values) := by
  have hnone : (values.any fun v => identical (.string text) (.string v)) = false := by
    rw [List.any_eq_false]
    rintro v hv hsame
    rw [identical, beq_iff_eq] at hsame
    exact h (hsame ▸ hv)
  simp [enumeration, string, hnone]

variable {type : FlowType} {discriminant : String} {discriminantType : FlowType}
  {variants : List (String × Schema)} {x : Input} {tag : String}

/-- No variant is found for a tag that is no key. -/
theorem find?_eq_none_iff_notMem {tag : String} :
    variants.find? (·.1 == tag) = none ↔ tag ∉ variants.map Prod.fst := by
  rw [List.find?_eq_none, List.mem_map, not_exists]
  refine forall_congr' fun variant => ?_
  rw [not_and, beq_iff_eq]

/-- A sum refuses a discriminant that is no key. -/
theorem runWith_sum_of_notMem (htag : discriminant? discriminant x = some tag)
    (hkey : tag ∉ variants.map Prod.fst) :
    runWith custom (.sum type discriminant discriminantType variants) x =
      some (.error (.discriminant discriminant
        (.notListed (some (.string tag)) (variants.map Prod.fst)))) := by
  simp only [runWith, htag, enumeration_of_notMem hkey]
  rfl

/-- A sum refuses what has no discriminant. -/
theorem runWith_sum_of_none (htag : discriminant? discriminant x = none) :
    runWith custom (.sum type discriminant discriminantType variants) x =
      some (.error (.noVariant x type)) := by
  simp only [runWith, htag]
  rfl

end ValidatorGen.Check
