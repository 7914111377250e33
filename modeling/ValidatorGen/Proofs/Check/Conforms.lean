import ValidatorGen.Proofs.Check.Accept

/-!
# A validator accepts the shape that its schema declares

`Conforms` says by induction which inputs have the shape of a schema, with no word on the order in
which parts are checked, on collected refusals or on steps.  `run_accepts_iff_conforms` is the
main statement: a run comes to an end and accepts exactly where the input conforms.

## Strategy

From left to right the induction is on the steps and, within a step, on the schema
(`conforms_of_runWith`): a custom validator that accepts after some steps has been looked up and
has accepted after one step less.  From right to left it is on the derivation of `Conforms`, which
the equations of `run` follow constructor by constructor.
-/

namespace ValidatorGen.Check

/-- Strict equality, which holds between scalars only; numbers are compared as doubles. -/
inductive SameScalar : Json → Json → Prop where
  | null : SameScalar .null .null
  | bool (value : Bool) : SameScalar (.bool value) (.bool value)
  | number {a b : Json.Number} : a.toFloat == b.toFloat → SameScalar (.number a) (.number b)
  | string (value : String) : SameScalar (.string value) (.string value)

theorem identical_iff_sameScalar {a b : Json} : identical a b = true ↔ SameScalar a b := by
  constructor
  · intro h
    unfold identical at h
    split at h
    · exact .null
    · rw [beq_iff_eq] at h
      exact h ▸ .bool _
    · exact .number h
    · rw [beq_iff_eq] at h
      exact h ▸ .string _
    · cases h
  · intro h
    cases h with
    | null => rfl
    | bool value => exact beq_self_eq_true value
    | number h => exact h
    | string value => exact beq_self_eq_true value

/-- Whether an input has the shape that a schema declares, where custom schemas are looked up in a
table.  Nothing conforms to a schema by being `undefined`. -/
inductive Conforms (named : Table Schema) : Schema → Input → Prop where
  | bool (value : Bool) : Conforms named .bool (some (.bool value))
  | number (value : Json.Number) : Conforms named .number (some (.number value))
  | string (value : String) : Conforms named .string (some (.string value))
  | filePath (value : String) : Conforms named .filePath (some (.string value))
  | constant {type : String} {expected json : Json} :
      json.typeName = type → SameScalar json expected →
        Conforms named (.constant type expected) (some json)
  | enumeration {type : FlowType} {values : List String} {value : String} :
      value ∈ values → Conforms named (.enumeration type values) (some (.string value))
  /-- Required members are present and conform, optional ones may be absent or null instead. -/
  | object {type : FlowType} {fields optional : List (String × Schema)}
      {members : List (String × Json)} :
      (∀ field ∈ fields, Table.has members field.1) →
      (∀ field ∈ fields, Conforms named field.2 (Table.get? members field.1)) →
      (∀ field ∈ optional, Table.get? members field.1 ≠ none →
        Table.get? members field.1 ≠ some .null →
          Conforms named field.2 (Table.get? members field.1)) →
        Conforms named (.object type fields optional) (some (.object members))
  /-- An array is an object without members. -/
  | memberless {type : FlowType} {optional : List (String × Schema)} {items : List Json} :
      Conforms named (.object type [] optional) (some (.array items))
  | list {element : Schema} {items : List Json} :
      (∀ item ∈ items, Conforms named element (some item)) →
        Conforms named (.list element) (some (.array items))
  | mapping {key value : Schema} {members : List (String × Json)} :
      (∀ member ∈ members, Conforms named key (some (.string member.1))) →
      (∀ member ∈ members, Conforms named value (some member.2)) →
        Conforms named (.mapping key value) (some (.object members))
  /-- The keys of an array are its indices. -/
  | indexed {key value : Schema} {items : List Json} :
      (∀ index < items.length, Conforms named key (some (.string (toString index)))) →
      (∀ item ∈ items, Conforms named value (some item)) →
        Conforms named (.mapping key value) (some (.array items))
  /-- The first variant whose key is the discriminant counts. -/
  | sum {type : FlowType} {discriminant : String} {discriminantType : FlowType}
      {variants : List (String × Schema)} {members : List (String × Json)} {tag : String}
      {variant : String × Schema} :
      Table.get? members discriminant = some (.string tag) →
      variants.find? (·.1 == tag) = some variant →
      Conforms named variant.2 (some (.object members)) →
        Conforms named (.sum type discriminant discriminantType variants) (some (.object members))
  | custom {name : String} {types : List FlowType} {schema : Schema} {json : Json} :
      named.get? name = some schema → Conforms named schema (some json) →
        Conforms named (.custom name types) (some json)

variable {named : Table Schema}

theorem not_conforms_none (schema : Schema) : ¬ Conforms named schema none := by
  intro h
  cases h

/-! ## What is accepted conforms -/

theorem has_of_conforms {schema : Schema} {members : List (String × Json)} {name : String}
    (h : Conforms named schema (Table.get? members name)) : Table.has members name := by
  unfold Table.has
  cases hget : Table.get? members name with
  | some value => rfl
  | none =>
      rw [hget] at h
      exact absurd h (not_conforms_none schema)

theorem members?_eq_ok {x : Input} {members : List (String × Json)} (h : members? x = .ok members) :
    x = some (.object members) ∨ ∃ items, x = some (.array items) ∧ members = [] := by
  unfold members? at h
  split at h
  · cases h
    exact Or.inl rfl
  · next items =>
    cases h
    exact Or.inr ⟨items, rfl, rfl⟩
  · cases h
  · cases h
  · cases h

theorem conforms_mapping {key value : Schema} {x : Input} {properties : List (String × Json)}
    (h : properties? x = some properties)
    (hkey : ∀ property ∈ properties, Conforms named key (some (.string property.1)))
    (hvalue : ∀ property ∈ properties, Conforms named value (some property.2)) :
    Conforms named (.mapping key value) x := by
  unfold properties? at h
  split at h
  · cases h
    exact .mapping hkey hvalue
  · next items =>
    cases h
    refine .indexed (fun index hindex => ?_) fun item hitem => ?_
    · exact hkey _ (List.mem_mapIdx.mpr ⟨index, hindex, rfl⟩)
    · obtain ⟨index, hindex, rfl⟩ := List.mem_iff_getElem.mp hitem
      exact hvalue _ (List.mem_mapIdx.mpr ⟨index, hindex, rfl⟩)
  · cases h

/-- A schema accepts only what conforms, if custom validators do. -/
theorem conforms_of_runWith {custom : String → Input → Run}
    (hcustom : ∀ name types x value, custom name x = some (.ok value) →
      Conforms named (.custom name types) x) (schema : Schema) :
    ∀ {x : Input} {value : Json}, runWith custom schema x = some (.ok value) →
      Conforms named schema x := by
  induction schema with
  | bool =>
      intro x value h
      obtain ⟨b, rfl, -⟩ := bool_eq_ok_iff.mp (Option.some.inj h)
      exact .bool b
  | number =>
      intro x value h
      obtain ⟨n, rfl, -⟩ := number_eq_ok_iff.mp (Option.some.inj h)
      exact .number n
  | string =>
      intro x value h
      obtain ⟨text, rfl, -⟩ := string_eq_ok_iff.mp (Option.some.inj h)
      exact .string text
  | filePath =>
      intro x value h
      obtain ⟨text, rfl, -⟩ := string_eq_ok_iff.mp (Option.some.inj h)
      exact .filePath text
  | constant type expected =>
      intro x value h
      obtain ⟨json, rfl, htype, hsame, -⟩ := constant_eq_ok_iff.mp (Option.some.inj h)
      exact .constant htype (identical_iff_sameScalar.mp hsame)
  | enumeration type values =>
      intro x value h
      obtain ⟨text, rfl, hmem, -⟩ := enumeration_eq_ok_iff.mp (Option.some.inj h)
      exact .enumeration hmem
  | object type fields optional ihfields ihoptional =>
      intro x value h
      obtain ⟨members, values, hmembers, hvalues, -⟩ := runWith_object_eq_ok_iff.mp h
      have haccepts := exists_forall₂_iff.mp ⟨values, hvalues⟩
      have hfields : ∀ field ∈ fields,
          Conforms named field.2 (Table.get? members field.1) := by
        intro field hfield
        obtain ⟨value, hvalue⟩ := haccepts field (List.mem_append_left _ hfield)
        exact ihfields field hfield hvalue
      -- only an object or an array has members to be looked at
      rcases members?_eq_ok hmembers with rfl | ⟨items, rfl, rfl⟩
      · refine .object (fun field hfield => has_of_conforms (hfields field hfield)) hfields ?_
        intro field hfield hnone hnull
        -- an optional field counts only where it is present and not null
        have hlooked : field ∈ lookedAt true members optional :=
          mem_lookedAt_true.mpr ⟨hfield, hnone, hnull⟩
        obtain ⟨value, hvalue⟩ := haccepts field (List.mem_append_right _ hlooked)
        exact ihoptional field hfield hvalue
      · -- a required field of an array would have to accept `undefined`
        cases fields with
        | nil => exact .memberless
        | cons field fields => exact absurd (hfields field List.mem_cons_self) (not_conforms_none _)
  | list element ih =>
      intro x value h
      obtain ⟨items, values, rfl, hvalues, -⟩ := list_eq_ok_iff.mp h
      refine .list fun item hitem => ?_
      obtain ⟨value, hvalue⟩ := exists_forall₂_iff.mp ⟨values, hvalues⟩ item hitem
      exact ih hvalue
  | mapping key value ihkey ihvalue =>
      intro x result h
      obtain ⟨properties, keys, values, hproperties, hkeys, hvalues, -⟩ := mapping_eq_ok_iff.mp h
      have hkey : ∀ property ∈ properties, Conforms named key (some (.string property.1)) := by
        intro property hmem
        obtain ⟨name, hname⟩ := exists_forall₂_iff.mp ⟨keys, hkeys⟩ property hmem
        exact ihkey hname
      have hvalue : ∀ property ∈ properties, Conforms named value (some property.2) := by
        intro property hmem
        obtain ⟨item, hitem⟩ := exists_forall₂_iff.mp ⟨values, hvalues⟩ property hmem
        exact ihvalue hitem
      exact conforms_mapping hproperties hkey hvalue
  | sum type discriminant discriminantType variants ih =>
      intro x value h
      obtain ⟨tag, variant, htag, hvariant, hrun⟩ := runWith_sum_eq_ok_iff.mp h
      obtain ⟨members, rfl, hmember⟩ := discriminant?_eq_some_iff.mp htag
      exact .sum hmember hvariant (ih variant (List.mem_of_find?_eq_some hvariant) hrun)
  | custom name types =>
      intro x value h
      exact hcustom name types x value h

theorem conforms_of_resolve (steps : Nat) : ∀ (name : String) (types : List FlowType) (x : Input)
    (value : Json), resolve named steps name x = some (.ok value) →
      Conforms named (.custom name types) x := by
  induction steps with
  | zero =>
      intro name types x value h
      unfold resolve at h
      split at h <;> cases h
  | succ steps ih =>
      intro name types x value h
      cases hget : named.get? name with
      | none =>
          rw [resolve_of_get?_eq_none hget] at h
          cases h
      | some schema =>
          rw [resolve_succ_of_get? hget] at h
          have hschema : Conforms named schema x := conforms_of_runWith ih schema h
          cases x with
          | none => exact absurd hschema (not_conforms_none schema)
          | some json => exact .custom hget hschema

theorem conforms_of_run {schema : Schema} {x : Input} {value : Json}
    (h : run named schema x = some (.ok value)) : Conforms named schema x :=
  conforms_of_runWith (conforms_of_resolve _) schema h

/-! ## What conforms is accepted -/

theorem exists_run_mapping {key value : Schema} {x : Input} {properties : List (String × Json)}
    (h : properties? x = some properties)
    (hkey : ∀ property ∈ properties,
      ∃ name, run named key (some (.string property.1)) = some (.ok name))
    (hvalue : ∀ property ∈ properties,
      ∃ item, run named value (some property.2) = some (.ok item)) :
    ∃ result, run named (.mapping key value) x = some (.ok result) := by
  obtain ⟨keys, hkeys⟩ := exists_forall₂_iff.mpr hkey
  obtain ⟨values, hvalues⟩ := exists_forall₂_iff.mpr hvalue
  rw [run_mapping]
  exact ⟨_, mapping_eq_ok_iff.mpr ⟨properties, keys, values, h, hkeys, hvalues, rfl⟩⟩

theorem exists_run_object {type : FlowType} {fields optional : List (String × Schema)} {x : Input}
    {members : List (String × Json)} (h : members? x = .ok members)
    (hfields : ∀ field ∈ fields,
      ∃ value, run named field.2 (Table.get? members field.1) = some (.ok value))
    (hoptional : ∀ field ∈ optional, Table.get? members field.1 ≠ none →
      Table.get? members field.1 ≠ some .null →
        ∃ value, run named field.2 (Table.get? members field.1) = some (.ok value)) :
    ∃ result, run named (.object type fields optional) x = some (.ok result) := by
  have hall : ∀ field ∈ fields ++ lookedAt true members optional,
      ∃ value, runWith (customs named) field.2 (Table.get? members field.1) =
        some (.ok value) := by
    intro field hfield
    rw [runWith_customs]
    rcases List.mem_append.mp hfield with hfield | hlooked
    · exact hfields field hfield
    · obtain ⟨hfield, hnone, hnull⟩ := mem_lookedAt_true.mp hlooked
      exact hoptional field hfield hnone hnull
  obtain ⟨values, hvalues⟩ := exists_forall₂_iff.mpr hall
  rw [← runWith_customs]
  exact ⟨_, runWith_object_eq_ok_iff.mpr ⟨members, values, h, hvalues, rfl⟩⟩

theorem exists_run_of_conforms {schema : Schema} {x : Input} (h : Conforms named schema x) :
    ∃ value, run named schema x = some (.ok value) := by
  induction h with
  | bool value => exact ⟨.bool value, rfl⟩
  | number value => exact ⟨.number value, rfl⟩
  | string value => exact ⟨.string value, rfl⟩
  | filePath value => exact ⟨.string value, rfl⟩
  | @constant type expected json htype hsame =>
      have hok : constant type expected (some json) = .ok json :=
        constant_eq_ok_iff.mpr ⟨json, rfl, htype, identical_iff_sameScalar.mpr hsame, rfl⟩
      exact ⟨json, congrArg some hok⟩
  | @enumeration type values value hmem =>
      have hok : enumeration type values (some (.string value)) = .ok (.string value) :=
        enumeration_eq_ok_iff.mpr ⟨value, rfl, hmem, rfl⟩
      exact ⟨.string value, congrArg some hok⟩
  | object _ _ _ ihfields ihoptional => exact exists_run_object rfl ihfields ihoptional
  | memberless => exact exists_run_object rfl (by simp) (by simp [Table.get?])
  | @list element items _ ih =>
      obtain ⟨values, hvalues⟩ := exists_forall₂_iff.mpr ih
      rw [run_list]
      exact ⟨.array values, list_eq_ok_iff.mpr ⟨items, values, rfl, hvalues, rfl⟩⟩
  | mapping _ _ ihkey ihvalue => exact exists_run_mapping rfl ihkey ihvalue
  -- the properties of an array are its elements under their indices
  | indexed _ _ ihkey ihvalue =>
      refine exists_run_mapping rfl ?_ ?_
      · intro property hmem
        obtain ⟨index, hindex, rfl⟩ := List.mem_mapIdx.mp hmem
        exact ihkey index hindex
      · intro property hmem
        obtain ⟨index, hindex, rfl⟩ := List.mem_mapIdx.mp hmem
        exact ihvalue _ (List.getElem_mem hindex)
  | @sum type discriminant discriminantType variants members tag variant hmember hvariant _ ih =>
      obtain ⟨value, hvalue⟩ := ih
      refine ⟨value, ?_⟩
      rw [← runWith_customs] at hvalue ⊢
      refine runWith_sum_eq_ok_iff.mpr ⟨tag, variant, ?_, hvariant, hvalue⟩
      exact discriminant?_eq_some_iff.mpr ⟨members, rfl, hmember⟩
  | @custom name types schema json hget _ ih =>
      rw [run_custom_of_get? hget]
      exact ih

/-- A run accepts exactly the inputs that conform.  The limit on custom validators within one
another has no part in that: more steps accept nothing else. -/
theorem run_accepts_iff_conforms (named : Table Schema) (schema : Schema) (x : Input) :
    ((∃ value, run named schema x = some (.ok value)) ↔ Conforms named schema x) ∧
      ((∃ steps value, runWithin named steps schema x = some (.ok value)) ↔
        Conforms named schema x) := by
  refine ⟨⟨?_, exists_run_of_conforms⟩, ?_, ?_⟩
  · rintro ⟨value, h⟩
    exact conforms_of_run h
  · rintro ⟨steps, value, h⟩
    exact conforms_of_run (run_eq_some_iff.mpr ⟨steps, h⟩)
  · intro h
    obtain ⟨value, hvalue⟩ := exists_run_of_conforms h
    exact ⟨stepsFor named x, value, hvalue⟩

end ValidatorGen.Check
