import ValidatorGen.Proofs.Check.Run
import ValidatorGen.Proofs.Questions

/-!
# When a validator accepts

For every kind of schema this file says which inputs its validator accepts and what it returns for
them, given the outcomes of its parts: `runWith_object_eq_ok_iff`, `list_eq_ok_iff`,
`mapping_eq_ok_iff` and `runWith_sum_eq_ok_iff`.  The parts of a list, a mapping or an object and
the values they are accepted with are paired by `List.Forall₂`, so the collected and the fail-fast
order of checking come out alike: all parts are accepted, in their order.
-/

namespace ValidatorGen.Check

/-! ## Results in pairs with their arguments -/

variable {α β : Type}

theorem mapM_eq_some_iff {f : α → Option β} {list : List α} {results : List β} :
    list.mapM f = some results ↔ List.Forall₂ (fun x result => f x = some result) list results := by
  induction list generalizing results with
  | nil => simp [eq_comm]
  | cons head tail ih =>
      rw [List.mapM_cons, List.forall₂_cons_left_iff]
      simp only [Option.bind_eq_bind, Option.bind_eq_some_iff, Option.pure_def, Option.some.injEq]
      constructor
      · rintro ⟨first, hfirst, rest, hrest, rfl⟩
        exact ⟨first, rest, hfirst, ih.mp hrest, rfl⟩
      · rintro ⟨first, rest, hfirst, hrest, rfl⟩
        exact ⟨first, hfirst, rest, ih.mpr hrest, rfl⟩

theorem exists_forall₂_iff {relation : α → β → Prop} {list : List α} :
    (∃ results, List.Forall₂ relation list results) ↔
      ∀ x ∈ list, ∃ result, relation x result := by
  induction list with
  | nil => simp
  | cons head tail ih =>
      rw [List.forall_mem_cons, ← ih]
      constructor
      · rintro ⟨results, h⟩
        obtain ⟨first, rest, hfirst, hrest, -⟩ := List.forall₂_cons_left_iff.mp h
        exact ⟨⟨first, hfirst⟩, rest, hrest⟩
      · rintro ⟨⟨first, hfirst⟩, rest, hrest⟩
        exact ⟨first :: rest, .cons hfirst hrest⟩

/-! ## Scalars -/

theorem bool_eq_ok_iff {x : Input} {value : Json} :
    bool x = .ok value ↔ ∃ b, x = some (.bool b) ∧ value = .bool b := by
  constructor
  · intro h
    unfold bool at h
    split at h
    · next b =>
      cases h
      exact ⟨b, rfl, rfl⟩
    · cases h
  · rintro ⟨b, rfl, rfl⟩
    rfl

theorem number_eq_ok_iff {x : Input} {value : Json} :
    number x = .ok value ↔ ∃ n, x = some (.number n) ∧ value = .number n := by
  constructor
  · intro h
    unfold number at h
    split at h
    · next n =>
      cases h
      exact ⟨n, rfl, rfl⟩
    · cases h
  · rintro ⟨n, rfl, rfl⟩
    rfl

theorem string_eq_ok_iff {x : Input} {value : Json} :
    string x = .ok value ↔ ∃ text, x = some (.string text) ∧ value = .string text := by
  constructor
  · intro h
    unfold string at h
    split at h
    · next text =>
      cases h
      exact ⟨text, rfl, rfl⟩
    · cases h
  · rintro ⟨text, rfl, rfl⟩
    rfl

theorem constant_eq_ok_iff {type : String} {expected : Json} {x : Input} {value : Json} :
    constant type expected x = .ok value ↔
      ∃ json, x = some json ∧ json.typeName = type ∧ identical json expected = true ∧
        value = json := by
  constructor
  · intro h
    unfold constant at h
    split at h
    · cases h
    · next htype =>
      cases x with
      | none => cases h
      | some json =>
          simp only at h
          split at h
          · next hsame =>
            cases h
            exact ⟨value, rfl, not_not.mp htype, hsame, rfl⟩
          · cases h
  · rintro ⟨json, rfl, htype, hsame, rfl⟩
    have hinput : Input.typeName (some value) = type := htype
    rw [constant, if_neg (not_not.mpr hinput)]
    exact if_pos hsame

theorem enumeration_eq_ok_iff {type : FlowType} {values : List String} {x : Input}
    {value : Json} :
    enumeration type values x = .ok value ↔
      ∃ text, x = some (.string text) ∧ text ∈ values ∧ value = .string text := by
  have hany : ∀ text, (values.any fun v => identical (.string text) (.string v)) = true ↔
      text ∈ values := by
    intro text
    simp [identical]
  constructor
  · intro h
    unfold enumeration at h
    split at h
    · cases h
    · next accepted hstring =>
      obtain ⟨text, rfl, rfl⟩ := string_eq_ok_iff.mp hstring
      split at h
      · next hlisted =>
        cases h
        exact ⟨text, rfl, (hany text).mp hlisted, rfl⟩
      · cases h
  · rintro ⟨text, rfl, hmem, rfl⟩
    exact if_pos ((hany text).mpr hmem)

/-! ## Lists and mappings -/

theorem refused_eq_nil_iff {index : Nat} {outcomes : List Outcome} :
    refused index outcomes = [] ↔ outcomes = (accepted outcomes).map Except.ok := by
  induction outcomes generalizing index with
  | nil => simp [refused, accepted]
  | cons outcome outcomes ih =>
      cases outcome with
      | error reason =>
          refine iff_of_false (List.cons_ne_nil _ _) fun h => ?_
          have hmem : Except.error reason ∈ (accepted outcomes).map Except.ok :=
            h ▸ List.mem_cons_self
          simp at hmem
      | ok value =>
          rw [refused, accepted, List.map_cons, List.cons.injEq, ih]
          exact (and_iff_right rfl).symm

theorem accepted_map_ok (values : List Json) : accepted (values.map Except.ok) = values := by
  induction values with
  | nil => rfl
  | cons value values ih => rw [List.map_cons, accepted, ih]

theorem collect_eq_ok_iff {outcomes : List Outcome} {values : List Json} :
    collect outcomes = .ok values ↔ outcomes = values.map Except.ok := by
  unfold collect
  simp only [List.isEmpty_iff]
  constructor
  · intro h
    split at h
    · next hnone =>
      cases h
      exact refused_eq_nil_iff.mp hnone
    · cases h
  · rintro rfl
    rw [accepted_map_ok, if_pos (refused_eq_nil_iff.mpr (by rw [accepted_map_ok]))]

/-- All elements of a list are looked at, and all of them are accepted. -/
theorem mapM_collect_eq_ok_iff {f : α → Run} {list : List α} {values : List Json} :
    (∃ outcomes, list.mapM f = some outcomes ∧ collect outcomes = .ok values) ↔
      List.Forall₂ (fun x value => f x = some (.ok value)) list values := by
  constructor
  · rintro ⟨outcomes, houtcomes, hcollect⟩
    rw [collect_eq_ok_iff] at hcollect
    rw [hcollect, mapM_eq_some_iff, List.forall₂_map_right_iff] at houtcomes
    exact houtcomes
  · intro h
    refine ⟨values.map Except.ok, ?_, collect_eq_ok_iff.mpr rfl⟩
    rwa [mapM_eq_some_iff, List.forall₂_map_right_iff]

theorem list_eq_ok_iff {element : Input → Run} {x : Input} {value : Json} :
    list element x = some (.ok value) ↔
      ∃ items values, x = some (.array items) ∧
        List.Forall₂ (fun item value => element (some item) = some (.ok value)) items values ∧
          value = .array values := by
  unfold list
  split
  · next items =>
    simp only [Option.bind_eq_bind, Option.bind_eq_some_iff, Option.pure_def, Option.some.injEq]
    constructor
    · rintro ⟨outcomes, houtcomes, hvalue⟩
      cases hcollect : collect outcomes with
      | error reason => simp [hcollect, Except.map] at hvalue
      | ok values =>
          rw [hcollect] at hvalue
          cases hvalue
          exact ⟨items, values, rfl, mapM_collect_eq_ok_iff.mp ⟨outcomes, houtcomes, hcollect⟩, rfl⟩
    · rintro ⟨_, values, hitems, hvalues, rfl⟩
      cases hitems
      obtain ⟨outcomes, houtcomes, hcollect⟩ := mapM_collect_eq_ok_iff.mpr hvalues
      exact ⟨outcomes, houtcomes, by rw [hcollect]; rfl⟩
  · next h =>
    constructor
    · intro hvalue
      cases hvalue
    · rintro ⟨items, values, hitems, -, -⟩
      exact absurd hitems (h items)

theorem mapping_eq_ok_iff {key value : Input → Run} {x : Input} {result : Json} :
    mapping key value x = some (.ok result) ↔
      ∃ properties keys values, properties? x = some properties ∧
        List.Forall₂ (fun property name => key (some (.string property.1)) = some (.ok name))
          properties keys ∧
        List.Forall₂ (fun property item => value (some property.2) = some (.ok item))
          properties values ∧
        result = .object (Table.ofPairs ((keys.map propertyName).zip values)) := by
  unfold mapping
  cases hproperties : properties? x with
  | none => simp
  | some properties =>
      simp only [Option.bind_eq_bind, Option.bind_eq_some_iff, Option.pure_def]
      constructor
      · rintro ⟨keyOutcomes, hkeyOutcomes, h⟩
        -- the values are not looked at before all keys are accepted
        cases hkeys : collect keyOutcomes with
        | error reason => simp [hkeys] at h
        | ok keys =>
            simp only [hkeys, Option.bind_eq_some_iff] at h
            obtain ⟨valueOutcomes, hvalueOutcomes, h⟩ := h
            cases hvalues : collect valueOutcomes with
            | error reason => simp [hvalues] at h
            | ok values =>
                simp only [hvalues, Option.some.injEq, Except.ok.injEq] at h
                exact ⟨properties, keys, values, rfl,
                  mapM_collect_eq_ok_iff.mp ⟨keyOutcomes, hkeyOutcomes, hkeys⟩,
                  mapM_collect_eq_ok_iff.mp ⟨valueOutcomes, hvalueOutcomes, hvalues⟩, h.symm⟩
      · rintro ⟨_, keys, values, hsome, hkeys, hvalues, rfl⟩
        cases hsome
        obtain ⟨keyOutcomes, hkeyOutcomes, hkeys⟩ := mapM_collect_eq_ok_iff.mpr hkeys
        obtain ⟨valueOutcomes, hvalueOutcomes, hvalues⟩ := mapM_collect_eq_ok_iff.mpr hvalues
        refine ⟨keyOutcomes, hkeyOutcomes, ?_⟩
        simp only [hkeys, Option.bind_eq_some_iff]
        exact ⟨valueOutcomes, hvalueOutcomes, by simp only [hvalues]⟩

/-! ## Objects and sums -/

/-- The fields that are looked at: an optional field is passed over where it is absent. -/
def lookedAt (isOptional : Bool) (members : List (String × Json))
    (fields : List (String × Schema)) : List (String × Schema) :=
  fields.filter fun field => !(isOptional && isAbsent (Table.get? members field.1))

@[simp] theorem lookedAt_false (members : List (String × Json)) (fields : List (String × Schema)) :
    lookedAt false members fields = fields := by
  simp [lookedAt]

theorem isAbsent_eq_false_iff {x : Input} : isAbsent x = false ↔ x ≠ none ∧ x ≠ some .null := by
  unfold isAbsent
  split
  · simp
  · simp
  · next hnone hnull => simpa using ⟨hnone, hnull⟩

theorem mem_lookedAt_true {members : List (String × Json)} {fields : List (String × Schema)}
    {field : String × Schema} : field ∈ lookedAt true members fields ↔
      field ∈ fields ∧ Table.get? members field.1 ≠ none ∧
        Table.get? members field.1 ≠ some .null := by
  rw [lookedAt, List.mem_filter, Bool.true_and, Bool.not_eq_true', isAbsent_eq_false_iff]

variable {custom : String → Input → Run}

/-- The validators of all fields that are looked at accept with the given values. -/
def FieldsAccept (custom : String → Input → Run) (members : List (String × Json)) :
    List (String × Schema) → List Json → Prop :=
  List.Forall₂ fun field value =>
    runWith custom field.2 (Table.get? members field.1) = some (.ok value)

/-- Puts the values of fields into a table, one after the other. -/
def setFields (table : Table Json) (fields : List (String × Schema)) (values : List Json) :
    Table Json :=
  ((fields.map Prod.fst).zip values).foldl (fun table entry => table.set entry.1 entry.2) table

theorem setFields_append {table : Table Json} {fields more : List (String × Schema)}
    {values : List Json} (hlength : fields.length = values.length) (rest : List Json) :
    setFields table (fields ++ more) (values ++ rest) =
      setFields (setFields table fields values) more rest := by
  unfold setFields
  rw [List.map_append, List.zip_append (by simpa using hlength), List.foldl_append]

theorem field_eq_ok_iff {name : String} {outcome : Outcome} {value : Json} :
    field name outcome = .ok value ↔ outcome = .ok value := by
  cases outcome <;> simp [field]

theorem runFields_eq_ok_iff {isOptional : Bool} {members : List (String × Json)}
    {fields : List (String × Schema)} {result table : Table Json} :
    runFields custom isOptional members fields result = some (.ok table) ↔
      ∃ values, FieldsAccept custom members (lookedAt isOptional members fields) values ∧
        table = setFields result (lookedAt isOptional members fields) values := by
  induction fields generalizing result with
  | nil => simp [runFields, lookedAt, FieldsAccept, setFields, eq_comm]
  | cons entry fields ih =>
      obtain ⟨name, schema⟩ := entry
      simp only [runFields]
      -- an optional field that is absent leaves no entry
      by_cases hskip : (isOptional && isAbsent (Table.get? members name)) = true
      · have hrest : lookedAt isOptional members ((name, schema) :: fields) =
            lookedAt isOptional members fields :=
          List.filter_cons_of_neg (by simpa using hskip)
        rw [if_pos hskip, hrest, ih]
      · have hrest : lookedAt isOptional members ((name, schema) :: fields) =
            (name, schema) :: lookedAt isOptional members fields :=
          List.filter_cons_of_pos (by simp only [Bool.eq_false_iff.mpr hskip, Bool.not_false])
        rw [if_neg hskip, hrest]
        simp only [Option.bind_eq_bind, Option.bind_eq_some_iff]
        constructor
        · rintro ⟨outcome, houtcome, h⟩
          cases houtcome' : field name outcome with
          | error reason => simp [houtcome'] at h
          | ok value =>
              rw [houtcome'] at h
              obtain ⟨values, hvalues, rfl⟩ := ih.mp h
              rw [field_eq_ok_iff] at houtcome'
              subst houtcome'
              exact ⟨value :: values, .cons houtcome hvalues, rfl⟩
        · rintro ⟨results, hresults, rfl⟩
          obtain ⟨value, values, hvalue, hvalues, rfl⟩ := List.forall₂_cons_left_iff.mp hresults
          exact ⟨.ok value, hvalue, ih.mpr ⟨values, hvalues, rfl⟩⟩

/-- An object accepts if all its required fields do and, of the optional ones, those that are
present; it returns their values under their names. -/
theorem runWith_object_eq_ok_iff {type : FlowType} {fields optional : List (String × Schema)}
    {x : Input} {result : Json} :
    runWith custom (.object type fields optional) x = some (.ok result) ↔
      ∃ members values, members? x = .ok members ∧
        FieldsAccept custom members (fields ++ lookedAt true members optional) values ∧
          result = .object (setFields [] (fields ++ lookedAt true members optional) values) := by
  simp only [runWith]
  cases hmembers : members? x with
  | error reason => simp
  | ok members =>
      -- the optional fields go on with the table that the required ones have filled
      simp only [Option.bind_eq_bind, Option.bind_eq_some_iff, Option.pure_def]
      constructor
      · rintro ⟨outcome, houtcome, h⟩
        cases outcome with
        | error reason => simp at h
        | ok table =>
            obtain ⟨first, hfirst, rfl⟩ := runFields_eq_ok_iff.mp houtcome
            simp only [Option.bind_eq_some_iff] at h
            obtain ⟨outcome, houtcome, h⟩ := h
            cases outcome with
            | error reason => simp at h
            | ok table =>
                obtain ⟨rest, hrest, rfl⟩ := runFields_eq_ok_iff.mp houtcome
                rw [lookedAt_false] at hfirst h
                cases h
                refine ⟨members, first ++ rest, rfl, List.rel_append hfirst hrest, ?_⟩
                rw [setFields_append hfirst.length_eq]
      · rintro ⟨_, values, hsome, hvalues, rfl⟩
        cases hsome
        obtain ⟨first, rest, hfirst, hrest, rfl⟩ := forall₂_append_left_iff.mp hvalues
        refine ⟨.ok (setFields [] fields first), ?_, ?_⟩
        · exact runFields_eq_ok_iff.mpr ⟨first, by rwa [lookedAt_false], by rw [lookedAt_false]⟩
        · simp only [Option.bind_eq_some_iff]
          refine ⟨.ok _, runFields_eq_ok_iff.mpr ⟨rest, hrest, rfl⟩, ?_⟩
          rw [setFields_append hfirst.length_eq]

theorem discriminant?_eq_some_iff {name : String} {x : Input} {tag : String} :
    discriminant? name x = some tag ↔
      ∃ members, x = some (.object members) ∧ Table.get? members name = some (.string tag) := by
  unfold discriminant?
  split
  · next members =>
    constructor
    · intro h
      split at h
      · next htag =>
        cases h
        exact ⟨members, rfl, htag⟩
      · cases h
    · rintro ⟨_, hmembers, htag⟩
      cases hmembers
      rw [htag]
  · next h =>
    refine iff_of_false (Option.some_ne_none tag).symm ?_
    rintro ⟨members, hmembers, -⟩
    exact h members hmembers

/-- A sum runs the first variant whose key is the discriminant. -/
theorem runWith_sum_of_find? {type : FlowType} {discriminant : String}
    {discriminantType : FlowType} {variants : List (String × Schema)} {x : Input} {tag : String}
    (htag : discriminant? discriminant x = some tag) {variant : String × Schema}
    (hvariant : variants.find? (·.1 == tag) = some variant) :
    runWith custom (.sum type discriminant discriminantType variants) x =
      runWith custom variant.2 x := by
  -- the key of the variant is among those that the discriminant may have
  have hkey : tag ∈ variants.map Prod.fst := by
    have hfound : variant.1 = tag := by simpa using List.find?_some hvariant
    rw [← hfound]
    exact List.mem_map_of_mem (List.mem_of_find?_eq_some hvariant)
  have hlisted : enumeration discriminantType (variants.map Prod.fst) (some (.string tag)) =
      .ok (.string tag) := enumeration_eq_ok_iff.mpr ⟨tag, rfl, hkey, rfl⟩
  simp only [runWith, htag, hlisted, runVariant_eq, hvariant]

/-- A sum accepts what the first variant whose key is the discriminant accepts. -/
theorem runWith_sum_eq_ok_iff {type : FlowType} {discriminant : String}
    {discriminantType : FlowType} {variants : List (String × Schema)} {x : Input}
    {result : Json} :
    runWith custom (.sum type discriminant discriminantType variants) x = some (.ok result) ↔
      ∃ tag variant, discriminant? discriminant x = some tag ∧
        variants.find? (·.1 == tag) = some variant ∧
          runWith custom variant.2 x = some (.ok result) := by
  constructor
  · intro h
    simp only [runWith] at h
    split at h
    · simp at h
    · next tag htag =>
      split at h
      · simp at h
      · rw [runVariant_eq] at h
        split at h
        · next variant hvariant => exact ⟨tag, variant, htag, hvariant, h⟩
        · simp at h
  · rintro ⟨tag, variant, htag, hvariant, h⟩
    rwa [runWith_sum_of_find? htag hvariant]

end ValidatorGen.Check
