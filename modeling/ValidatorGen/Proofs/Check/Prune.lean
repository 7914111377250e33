import ValidatorGen.Proofs.Check.Conforms

/-!
# A validator returns a part of its input

`Prunes` says by induction what a validator may leave of a value: scalars stay as they are, arrays
keep all their elements, and objects keep some of their members; an array may be turned into an
object of some of its elements, each under its index.  `prunes_of_run` is the main statement: what a
run returns is such a part of its input.

## Strategy

An input that is accepted conforms, so the induction is on the derivation of `Conforms`, and the
customs within one another need no steps.  Each case takes the outcome of a run apart into the
outcomes of its parts.  For a mapping the induction says more than it seems: a string has no part
but itself, so every key is kept as it is (`eq_string_of_prunes`).
-/

namespace ValidatorGen.Check

/-- What may be left of a value.  The entries that an object keeps all have an `original`. -/
inductive Prunes : Json → Json → Prop where
  | null : Prunes .null .null
  | bool (value : Bool) : Prunes (.bool value) (.bool value)
  | number (value : Json.Number) : Prunes (.number value) (.number value)
  | string (value : String) : Prunes (.string value) (.string value)
  | array {kept items : List Json} :
      List.Forall₂ Prunes kept items → Prunes (.array kept) (.array items)
  | object {kept members : List (String × Json)} (original : String × Json → Json) :
      (∀ entry ∈ kept, (entry.1, original entry) ∈ members) →
      (∀ entry ∈ kept, Prunes entry.2 (original entry)) → Prunes (.object kept) (.object members)
  /-- An element is kept under the decimal text of its index. -/
  | indexed {kept : List (String × Json)} {items : List Json} (index : String × Json → Nat)
      (original : String × Json → Json) :
      (∀ entry ∈ kept, entry.1 = toString (index entry)) →
      (∀ entry ∈ kept, items[index entry]? = some (original entry)) →
      (∀ entry ∈ kept, Prunes entry.2 (original entry)) → Prunes (.object kept) (.array items)

theorem prunes_object_iff {kept members : List (String × Json)} :
    Prunes (.object kept) (.object members) ↔
      ∀ entry ∈ kept, ∃ original, (entry.1, original) ∈ members ∧ Prunes entry.2 original := by
  constructor
  · rintro (_ | _ | _ | _ | _ | ⟨original, hmem, hprunes⟩)
    exact fun entry hentry => ⟨original entry, hmem entry hentry, hprunes entry hentry⟩
  · intro h
    choose! original hmem hprunes using h
    exact .object original hmem hprunes

theorem prunes_indexed_iff {kept : List (String × Json)} {items : List Json} :
    Prunes (.object kept) (.array items) ↔
      ∀ entry ∈ kept, ∃ (index : Nat) (original : Json), entry.1 = toString index ∧
        items[index]? = some original ∧ Prunes entry.2 original := by
  constructor
  · rintro (_ | _ | _ | _ | _ | _ | ⟨index, original, hname, hitem, hprunes⟩)
    exact fun entry hentry =>
      ⟨index entry, original entry, hname entry hentry, hitem entry hentry, hprunes entry hentry⟩
  · intro h
    choose! index original hname hitem hprunes using h
    exact .indexed index original hname hitem hprunes

theorem eq_string_of_prunes {value : Json} {text : String} (h : Prunes value (.string text)) :
    value = .string text := by
  cases h
  rfl

/-- Nothing but null is turned into null. -/
theorem eq_null_of_prunes {json : Json} (h : Prunes .null json) : json = .null := by
  cases h
  rfl

theorem prunes_of_sameScalar {json expected : Json} (h : SameScalar json expected) :
    Prunes json json := by
  cases h with
  | null => exact .null
  | bool value => exact .bool value
  | number => exact .number _
  | string value => exact .string value

/-- Some properties of a value make up an object that is a part of it. -/
theorem prunes_of_properties {json : Json} {properties kept : List (String × Json)}
    (hproperties : properties? (some json) = some properties)
    (h : ∀ entry ∈ kept, ∃ original, (entry.1, original) ∈ properties ∧ Prunes entry.2 original) :
    Prunes (.object kept) json := by
  unfold properties? at hproperties
  split at hproperties
  · next members hjson =>
    cases hjson
    cases hproperties
    exact prunes_object_iff.mpr h
  · next items hjson =>
    cases hjson
    cases hproperties
    refine prunes_indexed_iff.mpr fun entry hentry => ?_
    obtain ⟨original, hmem, hprunes⟩ := h entry hentry
    obtain ⟨index, hindex, heq⟩ := List.mem_mapIdx.mp hmem
    obtain ⟨hname, rfl⟩ := Prod.mk.inj heq
    exact ⟨index, _, hname.symm, List.getElem?_eq_getElem hindex, hprunes⟩
  · cases hproperties

/-! ## The entries of results -/

/-- Every entry of a result is the outcome of something that bears its name. -/
theorem exists_of_mem_ofPairs {α : Type} {relation : α → Json → Prop} {list : List α}
    {values : List Json} (name : α → String) (h : List.Forall₂ relation list values)
    {entry : String × Json} (hentry : entry ∈ Table.ofPairs ((list.map name).zip values)) :
    ∃ x ∈ list, name x = entry.1 ∧ relation x entry.2 := by
  have hzip := Table.mem_of_mem_ofPairs hentry
  rw [List.zip_map_left, List.mem_map] at hzip
  obtain ⟨⟨x, value⟩, hpair, rfl⟩ := hzip
  exact ⟨x, (List.of_mem_zip hpair).1, rfl, List.forall₂_zip h hpair⟩

variable {named : Table Schema}

/-- Keys that are accepted as themselves keep their names. -/
theorem map_propertyName_eq {key : Schema} {properties : List (String × Json)} {keys : List Json}
    (hkeys : List.Forall₂ (fun property name =>
      run named key (some (.string property.1)) = some (.ok name)) properties keys)
    (hself : ∀ property ∈ properties, ∀ name,
      run named key (some (.string property.1)) = some (.ok name) → name = .string property.1) :
    keys.map propertyName = properties.map Prod.fst := by
  induction hkeys with
  | nil => rfl
  | cons hkey _ ih =>
      rw [List.forall_mem_cons] at hself
      rw [List.map_cons, List.map_cons, ih hself.2, hself.1 _ hkey]
      rfl

/-! ## What a run returns -/

theorem prunes_of_run_mapping {key value : Schema} {json : Json}
    {properties : List (String × Json)} (hproperties : properties? (some json) = some properties)
    (hkey : ∀ property ∈ properties, ∀ {name},
      run named key (some (.string property.1)) = some (.ok name) →
        ∃ json, some (.string property.1) = some json ∧ Prunes name json)
    (hvalue : ∀ property ∈ properties, ∀ {item},
      run named value (some property.2) = some (.ok item) →
        ∃ json, some property.2 = some json ∧ Prunes item json)
    {result : Json} (hrun : run named (.mapping key value) (some json) = some (.ok result)) :
    Prunes result json := by
  rw [run_mapping] at hrun
  obtain ⟨_, keys, values, hsome, hkeys, hvalues, rfl⟩ := mapping_eq_ok_iff.mp hrun
  cases hproperties.symm.trans hsome
  have hself : ∀ property ∈ properties, ∀ name,
      run named key (some (.string property.1)) = some (.ok name) → name = .string property.1 := by
    intro property hmem name hname
    obtain ⟨_, hjson, hprunes⟩ := hkey property hmem hname
    cases hjson
    exact eq_string_of_prunes hprunes
  rw [map_propertyName_eq hkeys hself]
  refine prunes_of_properties hproperties fun entry hentry => ?_
  obtain ⟨property, hmem, hname, hitem⟩ := exists_of_mem_ofPairs Prod.fst hvalues hentry
  obtain ⟨_, hjson, hprunes⟩ := hvalue property hmem hitem
  cases hjson
  exact ⟨property.2, hname ▸ hmem, hprunes⟩

theorem prunes_of_conforms {schema : Schema} {x : Input} (h : Conforms named schema x) :
    ∀ {value : Json}, run named schema x = some (.ok value) →
      ∃ json, x = some json ∧ Prunes value json := by
  induction h with
  | bool b =>
      intro value hrun
      obtain ⟨_, hx, rfl⟩ := bool_eq_ok_iff.mp (Option.some.inj hrun)
      exact ⟨_, hx, .bool _⟩
  | number n =>
      intro value hrun
      obtain ⟨_, hx, rfl⟩ := number_eq_ok_iff.mp (Option.some.inj hrun)
      exact ⟨_, hx, .number _⟩
  | string text =>
      intro value hrun
      obtain ⟨_, hx, rfl⟩ := string_eq_ok_iff.mp (Option.some.inj hrun)
      exact ⟨_, hx, .string _⟩
  | filePath text =>
      intro value hrun
      obtain ⟨_, hx, rfl⟩ := string_eq_ok_iff.mp (Option.some.inj hrun)
      exact ⟨_, hx, .string _⟩
  | constant htype hsame =>
      intro value hrun
      obtain ⟨json, hx, -, -, rfl⟩ := constant_eq_ok_iff.mp (Option.some.inj hrun)
      cases hx
      exact ⟨_, rfl, prunes_of_sameScalar hsame⟩
  | enumeration hmem =>
      intro value hrun
      obtain ⟨text, hx, -, rfl⟩ := enumeration_eq_ok_iff.mp (Option.some.inj hrun)
      exact ⟨_, hx, .string _⟩
  | @object type fields optional members hpresent hfields hoptional ihfields ihoptional =>
      intro value hrun
      rw [← runWith_customs] at hrun
      obtain ⟨_, values, hmembers, hvalues, rfl⟩ := runWith_object_eq_ok_iff.mp hrun
      cases hmembers
      refine ⟨_, rfl, prunes_object_iff.mpr fun entry hentry => ?_⟩
      obtain ⟨field, hfield, hname, hvalue⟩ := exists_of_mem_ofPairs Prod.fst hvalues hentry
      rw [runWith_customs] at hvalue
      obtain ⟨original, horiginal, hprunes⟩ :
          ∃ json, Table.get? members field.1 = some json ∧ Prunes entry.2 json := by
        rcases List.mem_append.mp hfield with hfield | hlooked
        · exact ihfields field hfield hvalue
        · obtain ⟨hfield, hnone, hnull⟩ := mem_lookedAt_true.mp hlooked
          exact ihoptional field hfield hnone hnull hvalue
      exact ⟨original, hname ▸ Table.mem_of_get? horiginal, hprunes⟩
  | memberless =>
      intro value hrun
      rw [← runWith_customs] at hrun
      obtain ⟨_, values, hmembers, hvalues, rfl⟩ := runWith_object_eq_ok_iff.mp hrun
      cases hmembers
      refine ⟨_, rfl, prunes_indexed_iff.mpr fun entry hentry => ?_⟩
      -- an array has no members, so no field has been looked at
      obtain ⟨field, hfield, -⟩ := exists_of_mem_ofPairs Prod.fst hvalues hentry
      exact absurd rfl (mem_lookedAt_true.mp hfield).2.1
  | @list element items _ ih =>
      intro value hrun
      rw [run_list] at hrun
      obtain ⟨_, values, hitems, hvalues, rfl⟩ := list_eq_ok_iff.mp hrun
      cases hitems
      refine ⟨_, rfl, .array (List.forall₂_iff_get.mpr ⟨hvalues.length_eq.symm, ?_⟩)⟩
      intro index hvalue hitem
      obtain ⟨_, hjson, hprunes⟩ := ih _ (List.getElem_mem hitem) (hvalues.get hitem hvalue)
      cases hjson
      exact hprunes
  | mapping _ _ ihkey ihvalue =>
      intro result hrun
      exact ⟨_, rfl, prunes_of_run_mapping rfl ihkey ihvalue hrun⟩
  | indexed _ _ ihkey ihvalue =>
      intro result hrun
      refine ⟨_, rfl, prunes_of_run_mapping rfl ?_ ?_ hrun⟩
      · intro property hmem
        obtain ⟨index, hindex, rfl⟩ := List.mem_mapIdx.mp hmem
        exact ihkey index hindex
      · intro property hmem
        obtain ⟨index, hindex, rfl⟩ := List.mem_mapIdx.mp hmem
        exact ihvalue _ (List.getElem_mem hindex)
  | @sum type discriminant discriminantType variants members tag variant hmember hvariant _ ih =>
      intro value hrun
      rw [← runWith_customs] at hrun
      obtain ⟨_, _, htag, hfind, hrun⟩ := runWith_sum_eq_ok_iff.mp hrun
      obtain ⟨_, hx, htag⟩ := discriminant?_eq_some_iff.mp htag
      cases hx
      cases hmember.symm.trans htag
      cases hvariant.symm.trans hfind
      rw [runWith_customs] at hrun
      exact ih hrun
  | custom hget _ ih =>
      intro value hrun
      rw [run_custom_of_get? hget] at hrun
      exact ih hrun

/-- A run that accepts has looked at a value, and returns a part of it. -/
theorem prunes_of_run {named : Table Schema} {schema : Schema} {x : Input} {value : Json}
    (h : run named schema x = some (.ok value)) : ∃ json, x = some json ∧ Prunes value json :=
  prunes_of_conforms (conforms_of_run h) h

/-- Of an array of items a mapping leaves an object of what the items declare. -/
theorem prunes_of_run_items :
    run [("deItem", .object (.named "Item") [("id", .number)] [("note", .string)])]
      (.mapping .string (.custom "deItem" []))
      (some (.array [.object [("note", .null), ("id", .number (.int 7)), ("size", .null)]])) =
        some (.ok (.object [("0", .object [("id", .number (.int 7))])])) ∧
    ∃ json, some (Json.array
        [.object [("note", .null), ("id", .number (.int 7)), ("size", .null)]]) = some json ∧
      Prunes (.object [("0", .object [("id", .number (.int 7))])]) json := by
  have hrun : run [("deItem", .object (.named "Item") [("id", .number)] [("note", .string)])]
      (.mapping .string (.custom "deItem" []))
      (some (.array [.object [("note", .null), ("id", .number (.int 7)), ("size", .null)]])) =
        some (.ok (.object [("0", .object [("id", .number (.int 7))])])) := rfl
  exact ⟨hrun, prunes_of_run hrun⟩

end ValidatorGen.Check
