import ValidatorGen.Proofs.Check.Prune
import ValidatorGen.Proofs.Schema.Legality

/-!
# Validators leave their own results alone

What a validator returns is accepted by it again, and returned as it is (`run_idempotent`).  That
needs a condition on sums only: a sum tells variants apart by the discriminant, so the variants have
to be objects that return it (`SelfDescribing`).

## Strategy

The induction is on the derivation of `Conforms`, and two facts from `Prunes` carry it: a string
that is accepted is returned as it is, and nothing but null is turned into null.  By the first one
keys and discriminants are found again in a result, by the second one the same optional fields are
looked at again (`lookedAt_setFields`).
-/

namespace ValidatorGen

namespace Schema

/-- The variants of a sum are objects with the discriminant among their fields. -/
def DeclaresDiscriminant : Schema → Prop
  | .sum _ discriminant _ variants =>
    ∀ variant ∈ variants, ∃ type fields optional,
      variant.2 = .object type fields optional ∧ discriminant ∈ (fields ++ optional).map Prod.fst
  | _ => True

/-- A legal schema whose sums tell from the result of a variant which variant it was. -/
structure SelfDescribing (schema : Schema) : Prop where
  legal : schema.check = .ok ()
  declares : ∀ inner, Within inner schema → inner.DeclaresDiscriminant

theorem SelfDescribing.part {schema part : Schema} (h : schema.SelfDescribing)
    (hpart : part ∈ schema.parts) : part.SelfDescribing where
  legal := (check_eq_ok_iff.mp h.legal).2 part hpart
  declares inner hinner := h.declares inner (.part hpart hinner)

theorem SelfDescribing.of_parts {schema : Schema} (hlegal : schema.check = .ok ())
    (hdeclares : schema.DeclaresDiscriminant)
    (hparts : ∀ part ∈ schema.parts, part.SelfDescribing) : schema.SelfDescribing where
  legal := hlegal
  declares inner hinner := by
    rcases within_iff.mp hinner with rfl | ⟨part, hpart, hinner⟩
    · exact hdeclares
    · exact (hparts part hpart).declares inner hinner

theorem SelfDescribing.nodup_fields {type : FlowType} {fields optional : List (String × Schema)}
    (h : (object type fields optional).SelfDescribing) :
    ((fields ++ optional).map Prod.fst).Nodup :=
  (check_eq_ok_iff.mp h.legal).1.2

end Schema

namespace Check

variable {named : Table Schema}

/-! ## What becomes of strings and of null -/

theorem eq_string_of_run {schema : Schema} {text : String} {value : Json}
    (h : run named schema (some (.string text)) = some (.ok value)) : value = .string text := by
  obtain ⟨json, hjson, hprunes⟩ := prunes_of_conforms (conforms_of_run h) h
  cases hjson
  exact eq_string_of_prunes hprunes

theorem ne_null_of_run {schema : Schema} {x : Input} {value : Json}
    (h : run named schema x = some (.ok value)) (hx : x ≠ some .null) : value ≠ .null := by
  rintro rfl
  obtain ⟨json, rfl, hprunes⟩ := prunes_of_conforms (conforms_of_run h) h
  exact hx (congrArg some (eq_null_of_prunes hprunes))

/-! ## Objects -/

/-- Fields of different names put one entry each into a result, in their order. -/
theorem setFields_eq_zip {fields : List (String × Schema)} {values : List Json}
    (hnames : (fields.map Prod.fst).Nodup) (hlength : fields.length = values.length) :
    setFields [] fields values = (fields.map Prod.fst).zip values := by
  refine Table.ofPairs_eq_self ?_
  rwa [List.map_fst_zip (by rw [List.length_map, hlength])]

theorem names_setFields {fields : List (String × Schema)} {values : List Json}
    (hnames : (fields.map Prod.fst).Nodup) (hlength : fields.length = values.length) :
    (setFields [] fields values).names = fields.map Prod.fst := by
  rw [setFields_eq_zip hnames hlength, Table.names,
    List.map_fst_zip (by rw [List.length_map, hlength])]

theorem get?_setFields {fields : List (String × Schema)} {values : List Json}
    (hnames : (fields.map Prod.fst).Nodup) (hlength : fields.length = values.length) :
    List.Forall₂ (fun field value =>
      Table.get? (setFields [] fields values) field.1 = some value) fields values := by
  refine List.forall₂_iff_zip.mpr ⟨hlength, fun {field value} hpair => ?_⟩
  have hnodup : (setFields [] fields values).names.Nodup := by
    rwa [names_setFields hnames hlength]
  rw [Table.get?_eq_some_iff hnodup, setFields_eq_zip hnames hlength, List.zip_map_left]
  exact List.mem_map_of_mem (f := Prod.map Prod.fst id) hpair

/-- The fields that are looked at have different names if all fields have. -/
theorem nodup_lookedAt {fields optional : List (String × Schema)}
    (h : ((fields ++ optional).map Prod.fst).Nodup) (members : List (String × Json)) :
    ((fields ++ lookedAt true members optional).map Prod.fst).Nodup :=
  h.sublist ((List.filter_sublist.append_left fields).map Prod.fst)

/-- A field that an object has looked at is found in its result. -/
theorem exists_get?_setFields {members : List (String × Json)} {fields : List (String × Schema)}
    {values : List Json} (hnames : (fields.map Prod.fst).Nodup)
    (hvalues : FieldsAccept (customs named) members fields values) {field : String × Schema}
    (hfield : field ∈ fields) :
    ∃ value, run named field.2 (Table.get? members field.1) = some (.ok value) ∧
      Table.get? (setFields [] fields values) field.1 = some value := by
  obtain ⟨index, hindex, rfl⟩ := List.mem_iff_getElem.mp hfield
  have hvalue := hvalues.get hindex (hvalues.length_eq ▸ hindex)
  rw [runWith_customs] at hvalue
  exact ⟨_, hvalue, (get?_setFields hnames hvalues.length_eq).get hindex _⟩

/-- The result of an object has the optional fields that the object has looked at, and no others. -/
theorem lookedAt_setFields {members : List (String × Json)}
    {fields optional : List (String × Schema)} {values : List Json}
    (hnames : ((fields ++ optional).map Prod.fst).Nodup)
    (hvalues : FieldsAccept (customs named) members
      (fields ++ lookedAt true members optional) values) :
    lookedAt true (setFields [] (fields ++ lookedAt true members optional) values) optional =
      lookedAt true members optional := by
  have hlooked := nodup_lookedAt hnames members
  refine List.filter_congr fun field hfield => ?_
  rw [Bool.true_and, Bool.true_and]
  congr 1
  -- a field that is present stays present, as nothing but null is accepted as null
  cases habsent : isAbsent (Table.get? members field.1) with
  | false =>
      obtain ⟨hnone, hnull⟩ := isAbsent_eq_false_iff.mp habsent
      obtain ⟨value, hvalue, hentry⟩ := exists_get?_setFields hlooked hvalues
        (List.mem_append_right _ (mem_lookedAt_true.mpr ⟨hfield, hnone, hnull⟩))
      rw [hentry, isAbsent_eq_false_iff]
      exact ⟨Option.some_ne_none _, fun h => ne_null_of_run hvalue hnull (Option.some.inj h)⟩
  | true =>
      have hnone : Table.get? (setFields [] (fields ++ lookedAt true members optional) values)
          field.1 = none := by
        rw [Table.get?_eq_none_iff, names_setFields hlooked hvalues.length_eq, List.map_append,
          List.mem_append]
        rw [List.map_append, List.nodup_append] at hnames
        rintro (hmem | hmem)
        · exact hnames.2.2 _ hmem _ (List.mem_map_of_mem hfield) rfl
        · obtain ⟨other, hother, hname⟩ := List.mem_map.mp hmem
          obtain ⟨-, hpresent⟩ := mem_lookedAt_true.mp hother
          rw [hname, ← isAbsent_eq_false_iff, habsent] at hpresent
          cases hpresent
      rw [hnone]
      rfl

theorem run_object_again {type : FlowType} {fields optional : List (String × Schema)} {x : Input}
    (hnames : ((fields ++ optional).map Prod.fst).Nodup) {members : List (String × Json)}
    (hmembers : members? x = .ok members)
    (hagain : ∀ field ∈ fields ++ lookedAt true members optional, ∀ {value},
      run named field.2 (Table.get? members field.1) = some (.ok value) →
        run named field.2 (some value) = some (.ok value))
    {result : Json} (hrun : run named (.object type fields optional) x = some (.ok result)) :
    run named (.object type fields optional) (some result) = some (.ok result) := by
  rw [← runWith_customs] at hrun ⊢
  obtain ⟨_, values, hsome, hvalues, rfl⟩ := runWith_object_eq_ok_iff.mp hrun
  cases hmembers.symm.trans hsome
  have hlooked := lookedAt_setFields hnames hvalues
  refine runWith_object_eq_ok_iff.mpr ⟨_, values, rfl, ?_, ?_⟩
  · rw [hlooked]
    have hget := get?_setFields (nodup_lookedAt hnames members) hvalues.length_eq
    refine List.forall₂_iff_zip.mpr ⟨hvalues.length_eq, fun {field value} hpair => ?_⟩
    have hvalue := List.forall₂_zip hvalues hpair
    rw [runWith_customs] at hvalue ⊢
    rw [List.forall₂_zip hget hpair]
    exact hagain field (List.of_mem_zip hpair).1 hvalue
  · rw [hlooked]

/-- What an object returns has the fields that the object has looked at. -/
theorem exists_member_of_run_object {type : FlowType} {fields optional : List (String × Schema)}
    {members : List (String × Json)} {result : Json}
    (hnames : ((fields ++ optional).map Prod.fst).Nodup)
    (hrun : run named (.object type fields optional) (some (.object members)) = some (.ok result))
    {name : String} {value : Json} (hvalue : Table.get? members name = some value)
    (hnull : value ≠ .null) (hname : name ∈ (fields ++ optional).map Prod.fst) :
    ∃ kept schema member, result = .object kept ∧ Table.get? kept name = some member ∧
      run named schema (some value) = some (.ok member) := by
  rw [← runWith_customs] at hrun
  obtain ⟨_, values, hmembers, hvalues, rfl⟩ := runWith_object_eq_ok_iff.mp hrun
  cases hmembers
  obtain ⟨field, hfield, rfl⟩ := List.mem_map.mp hname
  have hlooked : field ∈ fields ++ lookedAt true members optional := by
    refine List.mem_append.mpr ((List.mem_append.mp hfield).imp_right fun hfield => ?_)
    refine mem_lookedAt_true.mpr ⟨hfield, ?_, ?_⟩
    · simp [hvalue]
    · simpa [hvalue] using hnull
  obtain ⟨member, hmember, hentry⟩ :=
    exists_get?_setFields (nodup_lookedAt hnames members) hvalues hlooked
  exact ⟨_, field.2, member, rfl, hentry, hvalue ▸ hmember⟩

/-! ## Mappings -/

theorem run_mapping_again {key value : Schema} {x : Input} {properties : List (String × Json)}
    (hproperties : properties? x = some properties)
    (hagain : ∀ property ∈ properties, ∀ {item},
      run named value (some property.2) = some (.ok item) →
        run named value (some item) = some (.ok item))
    {result : Json} (hrun : run named (.mapping key value) x = some (.ok result)) :
    run named (.mapping key value) (some result) = some (.ok result) := by
  rw [run_mapping] at hrun ⊢
  obtain ⟨_, keys, values, hsome, hkeys, hvalues, rfl⟩ := mapping_eq_ok_iff.mp hrun
  cases hproperties.symm.trans hsome
  rw [map_propertyName_eq hkeys fun _ _ _ => eq_string_of_run]
  set kept := Table.ofPairs ((properties.map Prod.fst).zip values) with hkept
  refine mapping_eq_ok_iff.mpr
    ⟨kept, kept.map fun entry => .string entry.1, kept.map Prod.snd, rfl, ?_, ?_, ?_⟩
  · -- the names are texts, which are accepted as they are
    refine List.forall₂_map_right_iff.mpr (List.forall₂_same.mpr fun entry hentry => ?_)
    obtain ⟨property, hmem, hname, -⟩ := exists_of_mem_ofPairs Prod.fst hvalues hentry
    obtain ⟨name, -, hkey⟩ := exists_mem_of_forall₂ hkeys hmem
    rw [← hname, hkey, eq_string_of_run hkey]
  · refine List.forall₂_map_right_iff.mpr (List.forall₂_same.mpr fun entry hentry => ?_)
    obtain ⟨property, hmem, -, hitem⟩ := exists_of_mem_ofPairs Prod.fst hvalues hentry
    exact hagain property hmem hitem
  · have hnames : (Table.names kept).Nodup := Table.nodup_names_ofPairs _
    have hentries : ((kept.map fun entry => Json.string entry.1).map propertyName).zip
        (kept.map Prod.snd) = kept := by
      rw [List.map_map, List.zip_map']
      exact List.map_id _
    rw [hentries, Table.ofPairs_eq_self hnames]

/-! ## All schemas -/

theorem run_again {schema : Schema} {x : Input} (h : Conforms named schema x)
    (hnamed : ∀ entry ∈ named, entry.2.SelfDescribing) : schema.SelfDescribing →
      ∀ {value : Json}, run named schema x = some (.ok value) →
        run named schema (some value) = some (.ok value) := by
  induction h with
  | bool b =>
      intro _ value hrun
      obtain ⟨_, -, rfl⟩ := bool_eq_ok_iff.mp (Option.some.inj hrun)
      rfl
  | number n =>
      intro _ value hrun
      obtain ⟨_, -, rfl⟩ := number_eq_ok_iff.mp (Option.some.inj hrun)
      rfl
  | string text =>
      intro _ value hrun
      obtain rfl := eq_string_of_run hrun
      exact hrun
  | filePath text =>
      intro _ value hrun
      obtain rfl := eq_string_of_run hrun
      exact hrun
  | enumeration hmem =>
      intro _ value hrun
      obtain rfl := eq_string_of_run hrun
      exact hrun
  | constant htype hsame =>
      intro _ value hrun
      obtain ⟨_, hx, -, -, rfl⟩ := constant_eq_ok_iff.mp (Option.some.inj hrun)
      rwa [← hx]
  | @object type fields optional members hpresent hfields hoptional ihfields ihoptional =>
      intro hself value hrun
      have hparts : ∀ field ∈ fields ++ optional, field.2.SelfDescribing :=
        fun field hfield => hself.part (List.mem_map_of_mem hfield)
      refine run_object_again hself.nodup_fields rfl ?_ hrun
      intro field hfield item hitem
      rcases List.mem_append.mp hfield with hfield | hlooked
      · exact ihfields field hfield (hparts field (List.mem_append_left _ hfield)) hitem
      · obtain ⟨hfield, hnone, hnull⟩ := mem_lookedAt_true.mp hlooked
        exact ihoptional field hfield hnone hnull (hparts field (List.mem_append_right _ hfield))
          hitem
  | memberless =>
      intro hself value hrun
      refine run_object_again hself.nodup_fields rfl ?_ hrun
      intro field hfield
      exact absurd rfl (mem_lookedAt_true.mp hfield).2.1
  | @list element items _ ih =>
      intro hself value hrun
      rw [run_list] at hrun ⊢
      obtain ⟨_, values, hitems, hvalues, rfl⟩ := list_eq_ok_iff.mp hrun
      cases hitems
      refine list_eq_ok_iff.mpr ⟨values, values, rfl, ?_, rfl⟩
      refine List.forall₂_same.mpr fun item hitem => ?_
      obtain ⟨original, horiginal, hitem⟩ := exists_mem_of_forall₂ hvalues.flip hitem
      exact ih original horiginal (hself.part List.mem_cons_self) hitem
  | mapping _ _ _ ihvalue =>
      intro hself value hrun
      refine run_mapping_again rfl (fun property hmem => ?_) hrun
      exact ihvalue property hmem (hself.part (by simp [Schema.parts]))
  | indexed _ _ _ ihvalue =>
      intro hself value hrun
      refine run_mapping_again rfl (fun property hmem => ?_) hrun
      obtain ⟨index, hindex, rfl⟩ := List.mem_mapIdx.mp hmem
      exact ihvalue _ (List.getElem_mem hindex) (hself.part (by simp [Schema.parts]))
  | @sum type discriminant discriminantType variants members tag variant hmember hvariant _ ih =>
      intro hself value hrun
      have hmem := List.mem_of_find?_eq_some hvariant
      have hpart : variant.2.SelfDescribing := hself.part (List.mem_map_of_mem hmem)
      rw [← runWith_customs] at hrun ⊢
      obtain ⟨_, _, htag, hfind, hrun⟩ := runWith_sum_eq_ok_iff.mp hrun
      obtain ⟨_, hx, htag⟩ := discriminant?_eq_some_iff.mp htag
      cases hx
      cases hmember.symm.trans htag
      cases hvariant.symm.trans hfind
      rw [runWith_customs] at hrun
      -- the variant returns an object that still has the discriminant
      obtain ⟨type', fields, optional, hobject, hdeclared⟩ := hself.declares _ (.self _) _ hmem
      obtain ⟨kept, schema, text, rfl, hkept, htext⟩ := exists_member_of_run_object
        (hobject ▸ hpart).nodup_fields (hobject ▸ hrun) hmember (by simp) hdeclared
      obtain rfl := eq_string_of_run htext
      refine runWith_sum_eq_ok_iff.mpr ⟨tag, variant, ?_, hvariant, ?_⟩
      · exact discriminant?_eq_some_iff.mpr ⟨kept, rfl, hkept⟩
      · rw [runWith_customs]
        exact ih hpart hrun
  | custom hget _ ih =>
      intro _ value hrun
      rw [run_custom_of_get? hget] at hrun ⊢
      exact ih (hnamed _ (Table.mem_of_get? hget)) hrun

/-- A run that accepts accepts its own result, and returns it as it is. -/
theorem run_idempotent {named : Table Schema} {schema : Schema} (hschema : schema.SelfDescribing)
    (hnamed : ∀ entry ∈ named, entry.2.SelfDescribing) {x : Input} {value : Json}
    (h : run named schema x = some (.ok value)) :
    run named schema (some value) = some (.ok value) :=
  run_again (conforms_of_run h) hnamed hschema h

/-- Trees that refer to themselves: a leaf, or a node that may have children and a note. -/
def treeSchema : Schema :=
  .sum (.named "Tree") "kind" (.named "Kind") [
    ("leaf", .object (.named "Leaf") [("kind", .constant "string" (.string "leaf"))] []),
    ("node", .object (.named "Node") []
      [("kind", .string), ("children", .list (.custom "deTree" [])), ("note", .string)])]

/-- A node with a leaf, a note that is null and a member that is not declared. -/
def treeJson : Json :=
  .object [("note", .null), ("kind", .string "node"), ("size", .number (.int 1)),
    ("children", .array [.object [("kind", .string "leaf")]])]

/-- What is left of an array of such a node. -/
def keptTrees : Json :=
  .object [("0", .object [("kind", .string "node"),
    ("children", .array [.object [("kind", .string "leaf")]])])]

theorem selfDescribing_treeSchema : treeSchema.SelfDescribing := by
  have hstring : Schema.string.SelfDescribing := .of_parts rfl trivial (List.forall_mem_nil _)
  have hleaf : (Schema.constant "string" (.string "leaf")).SelfDescribing :=
    .of_parts rfl trivial (List.forall_mem_nil _)
  have hcustom : (Schema.custom "deTree" []).SelfDescribing :=
    .of_parts rfl trivial (List.forall_mem_nil _)
  refine .of_parts rfl (by simp [Schema.DeclaresDiscriminant, treeSchema]) ?_
  refine List.forall_mem_cons.mpr ⟨?_, List.forall_mem_singleton.mpr ?_⟩
  · exact .of_parts rfl trivial (List.forall_mem_singleton.mpr hleaf)
  · refine .of_parts rfl trivial (List.forall_mem_cons.mpr ⟨hstring, ?_⟩)
    refine List.forall_mem_cons.mpr ⟨?_, List.forall_mem_singleton.mpr hstring⟩
    exact .of_parts rfl trivial (List.forall_mem_singleton.mpr hcustom)

/-- A mapping turns an array of trees into an object, which it then leaves alone. -/
theorem run_idempotent_trees :
    (Schema.mapping .string (.custom "deTree" [])).SelfDescribing ∧
    (∀ entry ∈ [("deTree", treeSchema)], entry.2.SelfDescribing) ∧
    run [("deTree", treeSchema)] (.mapping .string (.custom "deTree" []))
      (some (.array [treeJson])) = some (.ok keptTrees) ∧
    run [("deTree", treeSchema)] (.mapping .string (.custom "deTree" [])) (some keptTrees) =
      some (.ok keptTrees) := by
  have hschema : (Schema.mapping .string (.custom "deTree" [])).SelfDescribing := by
    refine .of_parts rfl trivial (List.forall_mem_cons.mpr ⟨?_, ?_⟩)
    · exact .of_parts rfl trivial (List.forall_mem_nil _)
    · exact List.forall_mem_singleton.mpr (.of_parts rfl trivial (List.forall_mem_nil _))
  have hnamed : ∀ entry ∈ [("deTree", treeSchema)], entry.2.SelfDescribing :=
    List.forall_mem_singleton.mpr selfDescribing_treeSchema
  have hrun : run [("deTree", treeSchema)] (.mapping .string (.custom "deTree" []))
      (some (.array [treeJson])) = some (.ok keptTrees) := rfl
  exact ⟨hschema, hnamed, hrun, run_idempotent hschema hnamed hrun⟩

end Check

end ValidatorGen
