import ValidatorGen.Proofs.Json.Basic
import ValidatorGen.Proofs.Questions
import ValidatorGen.Proofs.Schema.Parts
import ValidatorGen.Schema.Decode

/-!
# Schemas are decoded from their JSON

The JSON of a schema is an object of its kind and, behind it, its `partMembers`.  Decoding fills a
draft with these one after the other and builds the schema of the draft (`ofMembers_partMembers`).
Constants have to be values without repeated members, since decoding keeps one member per name.
-/

namespace ValidatorGen

open Json (Cause Fault)

namespace FlowType

/-! ## Types -/

theorem ofJsons?_toJsons {types : List FlowType}
    (h : ∀ type ∈ types, ofJson? type.toJson = some type) :
    ofJsons? (toJsons types) = some types := by
  induction types with
  | nil => rfl
  | cons type types ih =>
      rw [List.forall_mem_cons] at h
      rw [toJsons, ofJsons?, h.1, ih h.2]
      rfl

/-- A literal is told from an application by its member, and a name from both by being a text. -/
theorem ofJson?_toJson (type : FlowType) : ofJson? type.toJson = some type := by
  induction type using induct with
  | named name => rfl
  | literal value => rfl
  | applied name parameters ih =>
      have hliteral : soleText? "literal" [("name", .string name),
          ("params", .array (toJsons parameters))] = none := rfl
      have hname : soleText? "name" [("name", .string name),
          ("params", .array (toJsons parameters))] = some name := rfl
      have hparameters : parametersOf? [("name", .string name),
          ("params", .array (toJsons parameters))] = some parameters := by
        simp [parametersOf?, ofJsons?_toJsons ih]
      rw [toJson, ofJson?, hliteral, hname, hparameters]
      rfl

theorem decode_toJson (type : FlowType) : decode type.toJson = .ok type := by
  rw [decode, ofJson?_toJson]

end FlowType

namespace Schema

/-! ## Constants -/

/-- All constants of a schema have a property. -/
def AllConstants (property : Json → Prop) (schema : Schema) : Prop :=
  ∀ type value, Within (.constant type value) schema → property value

theorem allConstants_iff {property : Json → Prop} {schema : Schema} :
    schema.AllConstants property ↔
      (∀ type value, schema = .constant type value → property value) ∧
        ∀ part ∈ schema.parts, part.AllConstants property := by
  constructor
  · intro h
    refine ⟨?_, fun part hpart type value hvalue => h type value (.part hpart hvalue)⟩
    rintro type value rfl
    exact h type value (.self _)
  · rintro ⟨hself, hparts⟩ type value hvalue
    rcases within_iff.mp hvalue with heq | ⟨part, hpart, hvalue⟩
    · exact hself type value heq.symm
    · exact hparts part hpart type value hvalue

/-! ## The JSON of a schema by members -/

/-- The kind of a schema. -/
def kind : Schema → Kind
  | .bool => .bool
  | .number => .number
  | .string => .string
  | .filePath => .filePath
  | .constant _ _ => .constant
  | .enumeration _ _ => .enumeration
  | .object _ _ _ => .object
  | .list _ => .list
  | .mapping _ _ => .mapping
  | .sum _ _ _ _ => .sum
  | .custom _ _ => .custom

/-- The members of a schema's JSON behind its kind. -/
def partMembers : Schema → List (String × Json)
  | .bool | .number | .string | .filePath => []
  | .constant type value => [("type", .string type), ("value", value)]
  | .enumeration type values =>
    [("type", type.toJson), ("values", .array (values.map Json.string))]
  | .object type fields optional =>
    [("type", type.toJson), ("fields", .array (namedToJson "name" fields))] ++
      if optional.isEmpty then [] else [("optional", .array (namedToJson "name" optional))]
  | .list element => [("element", element.toJson)]
  | .mapping key value => [("key", key.toJson), ("value", value.toJson)]
  | .sum type discriminant discriminantType variants =>
    [("type", type.toJson), ("discriminant", .string discriminant),
      ("discriminantType", discriminantType.toJson),
      ("variants", .array (namedToJson "key" variants))]
  | .custom name types => [("import", .string name), ("types", .array (types.map FlowType.toJson))]

theorem toJson_eq (schema : Schema) :
    schema.toJson = .object ((kindMember, .string schema.kind.name) :: schema.partMembers) := by
  cases schema <;> simp only [toJson, kindOnly, partMembers, kind] <;> rfl

theorem ne_kindMember_of_mem_partMembers (schema : Schema) :
    ∀ member ∈ schema.partMembers, member.1 ≠ kindMember := by
  cases schema with
  | object type fields optional =>
      rw [partMembers]
      split <;> simp [kindMember]
  | _ => simp [partMembers, kindMember]

/-! ## Kinds -/

theorem ofNaming_name (kind : Kind) : Kind.ofNaming (.string kind.name) = .ok kind := by
  cases kind <;> rfl

theorem kindAmong_of_found {kindOf : Json → Except Cause Kind} {members : List (String × Json)}
    (h : ∀ member ∈ members, member.1 ≠ kindMember) (kind : Kind) :
    kindAmong kindOf members (some kind) = .ok kind := by
  induction members with
  | nil => rfl
  | cons member members ih =>
      rw [List.forall_mem_cons] at h
      rw [kindAmong, if_neg h.1, ih h.2]

/-- The kind is found where it stands first and nowhere else. -/
theorem kindAmong_toJson {kindOf : Json → Except Cause Kind} {schema : Schema}
    (h : kindOf (.string schema.kind.name) = .ok schema.kind) :
    kindAmong kindOf ((kindMember, .string schema.kind.name) :: schema.partMembers) none =
      .ok schema.kind := by
  rw [kindAmong, if_pos rfl, h]
  exact kindAmong_of_found schema.ne_kindMember_of_mem_partMembers schema.kind

/-! ## Filling a draft -/

theorem fillMembers_cons {pattern : Pattern} {name : String} {json : Json}
    {rest : List (String × Json)} {part : Part} {draft draft' : Draft}
    (hpart : pattern.parts.find? (·.name == name) = some part) (hnew : draft.has part = false)
    (hfill : fill part json draft = .ok draft') :
    fillMembers pattern ((name, json) :: rest) draft = fillMembers pattern rest draft' := by
  rw [fillMembers, hpart]
  dsimp only
  rw [if_neg (Bool.eq_false_iff.mp hnew), hfill]
  rfl

/-- The kind is no part, so filling passes over it. -/
theorem fillMembers_kindMember (kind : Kind) (json : Json) (rest : List (String × Json))
    (draft : Draft) :
    fillMembers kind.pattern ((kindMember, json) :: rest) draft =
      fillMembers kind.pattern rest draft := by
  have hnone : kind.pattern.parts.find? (·.name == kindMember) = none := by cases kind <;> rfl
  rw [fillMembers, hnone]

theorem ofMembers_kindMember (kind : Kind) (json : Json) (rest : List (String × Json)) :
    ofMembers kind ((kindMember, json) :: rest) = ofMembers kind rest := by
  rw [ofMembers, fillMembers_kindMember, ofMembers]

theorem listOf_map {α : Type} {item : Json → Except Cause α} {encode : α → Json} {list : List α}
    (h : ∀ x ∈ list, item (encode x) = .ok x) :
    listOf item (.array (list.map encode)) = .ok list := by
  rw [listOf, mapM_eq_ok_iff, List.forall₂_map_left_iff, List.forall₂_same]
  exact h

/-- The pattern and the label of the named schemas of an object or a sum. -/
def IsNaming (pattern : Pattern) (label : Part) : Prop :=
  pattern = .field ∧ label = .fieldName ∨ pattern = .variant ∧ label = .variantKey

theorem decodeNamed_object {pattern : Pattern} {label : Part} (hnaming : IsNaming pattern label)
    (name : String) {schema : Schema} (h : decode schema.toJson = .ok schema) :
    decodeNamed pattern label (.object [(label.name, .string name), ("de", schema.toJson)]) =
      .ok (name, schema) := by
  have hschema : fill .schema schema.toJson { name := some name } =
      .ok { name := some name, schema := some schema } := by
    rw [fill, h]
    rfl
  rcases hnaming with ⟨rfl, rfl⟩ | ⟨rfl, rfl⟩
  · have hname : fill .fieldName (.string name) {} = .ok { name := some name } := by
      rw [fill]
      rfl
    rw [decodeNamed, fillMembers_cons rfl rfl hname, fillMembers_cons rfl rfl hschema, fillMembers]
    rfl
  · have hname : fill .variantKey (.string name) {} = .ok { name := some name } := by
      rw [fill]
      rfl
    rw [decodeNamed, fillMembers_cons rfl rfl hname, fillMembers_cons rfl rfl hschema, fillMembers]
    rfl

theorem decodeAllNamed_namedToJson {pattern : Pattern} {label : Part}
    (hnaming : IsNaming pattern label) {entries : List (String × Schema)}
    (h : ∀ entry ∈ entries, decode entry.2.toJson = .ok entry.2) :
    decodeAllNamed pattern label (.array (namedToJson label.name entries)) = .ok entries := by
  rw [decodeAllNamed]
  induction entries with
  | nil => rw [namedToJson, decodeEachNamed]
  | cons entry entries ih =>
      rw [List.forall_mem_cons] at h
      rw [namedToJson, decodeEachNamed, decodeNamed_object hnaming entry.1 h.1, ih h.2]
      rfl

theorem decodeAllNamed_fields {fields : List (String × Schema)}
    (h : ∀ field ∈ fields, decode field.2.toJson = .ok field.2) :
    decodeAllNamed .field .fieldName (.array (namedToJson "name" fields)) = .ok fields :=
  decodeAllNamed_namedToJson (Or.inl ⟨rfl, rfl⟩) h

theorem decodeAllNamed_variants {variants : List (String × Schema)}
    (h : ∀ variant ∈ variants, decode variant.2.toJson = .ok variant.2) :
    decodeAllNamed .variant .variantKey (.array (namedToJson "key" variants)) = .ok variants :=
  decodeAllNamed_namedToJson (Or.inr ⟨rfl, rfl⟩) h

/-- A schema within another is decoded if its parts are. -/
theorem decode_toJson_of_ofMembers {schema : Schema}
    (h : ofMembers schema.kind schema.partMembers = .ok schema) :
    decode schema.toJson = .ok schema := by
  have hkind : kindAmong Kind.ofNumbering
      ((kindMember, .string schema.kind.name) :: schema.partMembers) none = .ok schema.kind :=
    kindAmong_toJson (ofNaming_name _)
  rw [toJson_eq, decode, hkind]
  exact (ofMembers_kindMember _ _ _).trans h

/-! ## Schemas -/

theorem fill_type (type : FlowType) (draft : Draft) :
    fill .type type.toJson draft = .ok { draft with type := some type } := by
  rw [fill, FlowType.decode_toJson]
  rfl

theorem ofMembers_object {type : FlowType} {fields optional : List (String × Schema)}
    (hfields : ∀ field ∈ fields, decode field.2.toJson = .ok field.2)
    (hoptional : ∀ field ∈ optional, decode field.2.toJson = .ok field.2) :
    ofMembers .object (partMembers (.object type fields optional)) =
      .ok (.object type fields optional) := by
  have hrequired : fill .fields (.array (namedToJson "name" fields)) { type := some type } =
      .ok { type := some type, fields := some fields } := by
    rw [fill, decodeAllNamed_fields hfields]
    rfl
  rw [partMembers, ofMembers, List.cons_append, fillMembers_cons rfl rfl (fill_type type _),
    List.cons_append, fillMembers_cons rfl rfl hrequired, List.nil_append]
  -- without optional fields there is no member for them
  cases optional with
  | nil =>
      rw [List.isEmpty_nil, if_pos rfl, fillMembers]
      rfl
  | cons entry rest =>
      have hpresent : fill .optional (.array (namedToJson "name" (entry :: rest)))
          { type := some type, fields := some fields } =
          .ok { type := some type, fields := some fields, optional := some (entry :: rest) } := by
        rw [fill, decodeAllNamed_fields hoptional]
        rfl
      rw [if_neg (by simp), fillMembers_cons rfl rfl hpresent, fillMembers]
      rfl

theorem ofMembers_sum {type : FlowType} {discriminant : String} {discriminantType : FlowType}
    {variants : List (String × Schema)}
    (h : ∀ variant ∈ variants, decode variant.2.toJson = .ok variant.2) :
    ofMembers .sum (partMembers (.sum type discriminant discriminantType variants)) =
      .ok (.sum type discriminant discriminantType variants) := by
  have hdiscriminant : fill .discriminant (.string discriminant) { type := some type } =
      .ok { type := some type, discriminant := some discriminant } := by
    rw [fill]
    rfl
  have hdiscriminantType : fill .discriminantType discriminantType.toJson
      { type := some type, discriminant := some discriminant } =
      .ok { type := some type, discriminant := some discriminant,
            discriminantType := some discriminantType } := by
    rw [fill, FlowType.decode_toJson]
    rfl
  have hvariants : fill .variants (.array (namedToJson "key" variants))
      { type := some type, discriminant := some discriminant,
        discriminantType := some discriminantType } =
      .ok { type := some type, discriminant := some discriminant,
            discriminantType := some discriminantType, variants := some variants } := by
    rw [fill, decodeAllNamed_variants h]
    rfl
  rw [partMembers, ofMembers, fillMembers_cons rfl rfl (fill_type type _),
    fillMembers_cons rfl rfl hdiscriminant, fillMembers_cons rfl rfl hdiscriminantType,
    fillMembers_cons rfl rfl hvariants, fillMembers]
  rfl

/-- A schema is decoded from its members if its parts are decoded. -/
theorem ofMembers_of_parts {schema : Schema}
    (hconstant : ∀ type value, schema = .constant type value → value.isDistinct = true)
    (hparts : ∀ part ∈ schema.parts, decode part.toJson = .ok part) :
    ofMembers schema.kind schema.partMembers = .ok schema := by
  cases schema with
  | bool | number | string | filePath =>
      rw [partMembers, ofMembers, fillMembers]
      rfl
  -- the members are filled in one after another, so each is decoded in the presence of those before
  | constant type value =>
      have htype : fill .typeName (.string type) {} = .ok { typeName := some type } := by
        rw [fill]
        rfl
      have hvalue : fill .value value { typeName := some type } =
          .ok { typeName := some type, value := some value } := by
        rw [fill, Json.distinct_eq_self (hconstant type value rfl)]
        rfl
      rw [partMembers, ofMembers, fillMembers_cons rfl rfl htype, fillMembers_cons rfl rfl hvalue,
        fillMembers]
      rfl
  | enumeration type values =>
      have htexts : listOf text (.array (values.map Json.string)) = .ok values :=
        listOf_map fun _ _ => rfl
      have hvalues : fill .values (.array (values.map Json.string)) { type := some type } =
          .ok { type := some type, values := some values } := by
        rw [fill, htexts]
        rfl
      rw [partMembers, ofMembers, fillMembers_cons rfl rfl (fill_type type _),
        fillMembers_cons rfl rfl hvalues, fillMembers]
      rfl
  | object type fields optional =>
      rw [parts, List.forall_mem_map, List.forall_mem_append] at hparts
      exact ofMembers_object hparts.1 hparts.2
  | list element =>
      have helement : fill .element element.toJson {} = .ok { element := some element } := by
        rw [fill, hparts element List.mem_cons_self]
        rfl
      rw [partMembers, ofMembers, fillMembers_cons rfl rfl helement, fillMembers]
      rfl
  | mapping key value =>
      have hkey : fill .key key.toJson {} = .ok { key := some key } := by
        rw [fill, hparts key List.mem_cons_self]
        rfl
      have hvalue : fill .mapped value.toJson { key := some key } =
          .ok { key := some key, mapped := some value } := by
        rw [fill, hparts value (List.mem_cons_of_mem _ List.mem_cons_self)]
        rfl
      rw [partMembers, ofMembers, fillMembers_cons rfl rfl hkey, fillMembers_cons rfl rfl hvalue,
        fillMembers]
      rfl
  | sum type discriminant discriminantType variants =>
      rw [parts, List.forall_mem_map] at hparts
      exact ofMembers_sum hparts
  | custom name types =>
      have hname : fill .imported (.string name) {} = .ok { imported := some name } := by
        rw [fill]
        rfl
      have htypes : fill .types (.array (types.map FlowType.toJson)) { imported := some name } =
          .ok { imported := some name, types := some types } := by
        rw [fill, listOf_map fun type _ => FlowType.decode_toJson type]
        rfl
      rw [partMembers, ofMembers, fillMembers_cons rfl rfl hname, fillMembers_cons rfl rfl htypes,
        fillMembers]
      rfl

/-- A schema is decoded from the members of its JSON. -/
theorem ofMembers_partMembers {schema : Schema}
    (h : schema.AllConstants fun value => value.isDistinct = true) :
    ofMembers schema.kind schema.partMembers = .ok schema := by
  induction schema using induct_parts with
  | h schema ih =>
      obtain ⟨hconstant, hparts⟩ := allConstants_iff.mp h
      exact ofMembers_of_parts hconstant fun part hpart =>
        decode_toJson_of_ofMembers (ih part hpart (hparts part hpart))

/-- The outermost schema is decoded from its JSON. -/
theorem ofJson_toJson {schema : Schema}
    (h : schema.AllConstants fun value => value.isDistinct = true) :
    ofJson schema.toJson = .ok schema := by
  rw [toJson_eq, ofJson, kindAmong_toJson (ofNaming_name _)]
  show Fault.atRoot (ofMembers schema.kind _) = .ok schema
  rw [ofMembers_kindMember, ofMembers_partMembers h]
  rfl

end Schema

end ValidatorGen
