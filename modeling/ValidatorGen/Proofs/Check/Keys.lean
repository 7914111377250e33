import Mathlib.Data.List.Nodup
import ValidatorGen.Proofs.Check.Collect
import ValidatorGen.Proofs.Check.Idempotent

/-!
# Mappings keep every key

A mapping stores a value under whatever the validator of its key has returned, so a key could be
renamed, and two keys could become one.  Neither happens, whatever schema the keys have: what a
mapping returns has the keys of its input in their order, each with what the validator of the values
has made of the value under it (`run_mapping_keeps_keys`).

## Strategy

A key is looked at as a string, and a string that is accepted is returned as it is
(`eq_string_of_run`), so the names under which a mapping stores its values are those of the
properties of its input (`run_mapping_eq_ok`).  These differ: no object has two members of one name,
and the decimal texts of the indices of an array differ because they can be read back
(`HasProperties.nodup_names`).
-/

namespace ValidatorGen.Check

/-! ## The names of properties -/

/-- The decimal text of a number can be read back. -/
theorem toString_injective : Function.Injective (toString : Nat → String) := by
  intro a b h
  have hdigits : Nat.toDigits 10 a = Nat.toDigits 10 b := String.ofList_injective h
  calc a = Nat.ofDigitChars 10 (Nat.toDigits 10 a) 0 := Nat.ofDigitChars_ten_toDigits.symm
    _ = Nat.ofDigitChars 10 (Nat.toDigits 10 b) 0 := by rw [hdigits]
    _ = b := Nat.ofDigitChars_ten_toDigits

theorem hasProperties_of_properties? {x : Input} {properties : List (String × Json)}
    (h : properties? x = some properties) : HasProperties x properties := by
  unfold properties? at h
  split at h
  · cases h
    exact .object _
  · cases h
    exact .array _
  · cases h

/-- The properties of an array have different names, and so have those of an object in which no
name is repeated. -/
theorem HasProperties.nodup_names {x : Input} {properties : List (String × Json)}
    (h : HasProperties x properties)
    (hx : ∀ members, x = some (.object members) → (Table.names members).Nodup) :
    (Table.names properties).Nodup := by
  cases h with
  | object => exact hx properties rfl
  | array items =>
      have hnames : Table.names (items.mapIdx fun index item => (toString index, item)) =
          (List.range items.length).map toString :=
        List.ext_getElem (by simp [Table.names]) (by simp [Table.names])
      rw [hnames]
      exact List.nodup_range.map toString_injective

/-! ## What a mapping returns -/

variable {named : Table Schema}

/-- A mapping stores its values under the names of the properties. -/
theorem run_mapping_eq_ok {key value : Schema} {x : Input} {result : Json}
    (h : run named (.mapping key value) x = some (.ok result)) :
    ∃ properties values, HasProperties x properties ∧
      List.Forall₂ (fun property item => run named value (some property.2) = some (.ok item))
        properties values ∧
      result = .object (Table.ofPairs ((Table.names properties).zip values)) := by
  rw [run_mapping] at h
  obtain ⟨properties, keys, values, hproperties, hkeys, hvalues, rfl⟩ := mapping_eq_ok_iff.mp h
  rw [map_propertyName_eq hkeys fun _ _ _ => eq_string_of_run]
  exact ⟨properties, values, hasProperties_of_properties? hproperties, hvalues, rfl⟩

/-- A mapping that accepts returns an object with the keys of its input in their order: the names of
an object, in which no name is repeated, or the decimal texts of the indices of an array.  Under
each of them stands what the validator of the values returns for the value there. -/
theorem run_mapping_keeps_keys {key value : Schema} {x : Input}
    (hx : ∀ members, x = some (.object members) → (Table.names members).Nodup) {result : Json}
    (h : run named (.mapping key value) x = some (.ok result)) :
    ∃ properties kept, HasProperties x properties ∧ result = .object kept ∧
      Table.names kept = Table.names properties ∧ (Table.names kept).Nodup ∧
      ∀ property ∈ properties, ∃ item,
        run named value (some property.2) = some (.ok item) ∧
          Table.get? kept property.1 = some item := by
  obtain ⟨properties, values, hproperties, hvalues, rfl⟩ := run_mapping_eq_ok h
  have hnames : Table.names ((Table.names properties).zip values) = Table.names properties :=
    List.map_fst_zip (by rw [Table.names, List.length_map, hvalues.length_eq])
  have hnodup : (Table.names ((Table.names properties).zip values)).Nodup :=
    hnames.symm ▸ hproperties.nodup_names hx
  -- no name comes twice, so storing a value never replaces another one
  rw [Table.ofPairs_eq_self hnodup]
  refine ⟨properties, _, hproperties, rfl, hnames, hnodup, fun property hproperty => ?_⟩
  obtain ⟨index, hindex, rfl⟩ := List.mem_iff_getElem.mp hproperty
  have hvalue : index < values.length := hvalues.length_eq ▸ hindex
  refine ⟨values[index], hvalues.get hindex hvalue, ?_⟩
  rw [Table.get?_eq_some_iff hnodup, List.mem_iff_getElem]
  exact ⟨index, by simpa [Table.names] using ⟨hindex, hvalue⟩, by simp [Table.names]⟩

/-- The keys of a mapping go through one custom validator after the other. -/
def gradeTable : Table Schema :=
  [("deSubject", .custom "deName" []), ("deName", .enumeration (.named "Name") ["b", "a", "10"])]

/-- Grades under keys that do not ascend. -/
def gradesJson : Json :=
  .object [("b", .object [("mark", .number (.int 2)), ("note", .null)]),
    ("10", .object [("mark", .number (.int 1))]), ("a", .object [("mark", .null)])]

/-- What is left of the grades has the same keys in the same order. -/
theorem run_mapping_keeps_keys_grades :
    (∀ members, some gradesJson = some (.object members) → (Table.names members).Nodup) ∧
    run gradeTable (.mapping (.custom "deSubject" []) (.object (.named "Grade") []
        [("mark", .number)])) (some gradesJson) =
      some (.ok (.object [("b", .object [("mark", .number (.int 2))]),
        ("10", .object [("mark", .number (.int 1))]), ("a", .object [])])) ∧
    ∃ properties kept, HasProperties (some gradesJson) properties ∧
      Json.object [("b", .object [("mark", .number (.int 2))]),
        ("10", .object [("mark", .number (.int 1))]), ("a", .object [])] = .object kept ∧
      Table.names kept = Table.names properties ∧ (Table.names kept).Nodup ∧
      ∀ property ∈ properties, ∃ item,
        run gradeTable (.object (.named "Grade") [] [("mark", .number)]) (some property.2) =
          some (.ok item) ∧ Table.get? kept property.1 = some item := by
  have hdistinct : ∀ members, some gradesJson = some (.object members) →
      (Table.names members).Nodup := by
    rintro members h
    cases h
    decide
  have hrun : run gradeTable (.mapping (.custom "deSubject" []) (.object (.named "Grade") []
      [("mark", .number)])) (some gradesJson) =
        some (.ok (.object [("b", .object [("mark", .number (.int 2))]),
          ("10", .object [("mark", .number (.int 1))]), ("a", .object [])])) := rfl
  exact ⟨hdistinct, hrun, run_mapping_keeps_keys hdistinct hrun⟩

end ValidatorGen.Check
