import ValidatorGen.FlowType
import ValidatorGen.Json.Basic

/-!
# Schemas

A `Schema` is a plain tree that describes a validator. Everything else is derived from it: the
code of the validator, the names which that code needs, and the validator's outcome on a value.
-/

namespace ValidatorGen

/-- The description of a validator.

`filePath` accepts what `string` accepts and only tells the two apart. `constant` accepts one
value. An `object` has required fields and optional ones. A `sum` picks a variant by the text of
its `discriminant` member. A `custom` validator is declared elsewhere under its name. -/
inductive Schema where
  | bool
  | number
  | string
  | filePath
  | constant (type : String) (value : Json)
  | enumeration (type : FlowType) (values : List String)
  | object (type : FlowType) (fields optional : List (String × Schema))
  | list (element : Schema)
  | mapping (key value : Schema)
  | sum (type : FlowType) (discriminant : String) (discriminantType : FlowType)
      (variants : List (String × Schema))
  | custom (name : String) (types : List FlowType)
  deriving Inhabited, Repr

namespace Schema

/-- The constructors of `Schema`, in the order in which they are numbered. -/
inductive Kind where
  | bool
  | number
  | string
  | filePath
  | constant
  | enumeration
  | object
  | list
  | mapping
  | sum
  | custom
  deriving DecidableEq, Repr

namespace Kind

/-- All kinds in their order. -/
def all : List Kind :=
  [bool, number, string, filePath, constant, enumeration, object, list, mapping, sum, custom]

def name : Kind → String
  | bool => "bool"
  | number => "number"
  | string => "string"
  | filePath => "file_path"
  | constant => "value"
  | enumeration => "enum"
  | object => "object"
  | list => "list"
  | mapping => "mapping"
  | sum => "sum"
  | custom => "custom"

def ofName? (name : String) : Option Kind := all.find? (·.name == name)

end Kind

/-! ## JSON form -/

/-- A schema without parts as JSON. -/
def kindOnly (kind : Kind) : Json := .object [("kind", .string kind.name)]

mutual

/-- A schema as JSON: its kind first, then its parts. -/
def toJson : Schema → Json
  | .bool => kindOnly .bool
  | .number => kindOnly .number
  | .string => kindOnly .string
  | .filePath => kindOnly .filePath
  | .constant type value =>
    .object [("kind", .string Kind.constant.name), ("type", .string type), ("value", value)]
  | .enumeration type values =>
    .object [("kind", .string Kind.enumeration.name), ("type", type.toJson),
      ("values", .array (values.map Json.string))]
  | .object type fields optional =>
    .object ([("kind", .string Kind.object.name), ("type", type.toJson),
      ("fields", .array (namedToJson "name" fields))] ++
      if optional.isEmpty then [] else [("optional", .array (namedToJson "name" optional))])
  | .list element => .object [("kind", .string Kind.list.name), ("element", element.toJson)]
  | .mapping key value =>
    .object [("kind", .string Kind.mapping.name), ("key", key.toJson), ("value", value.toJson)]
  | .sum type discriminant discriminantType variants =>
    .object [("kind", .string Kind.sum.name), ("type", type.toJson),
      ("discriminant", .string discriminant), ("discriminantType", discriminantType.toJson),
      ("variants", .array (namedToJson "key" variants))]
  | .custom name types =>
    .object [("kind", .string Kind.custom.name), ("import", .string name),
      ("types", .array (types.map FlowType.toJson))]

/-- Fields and variants as JSON: an object each, its name under `label`. -/
def namedToJson (label : String) : List (String × Schema) → List Json
  | [] => []
  | (name, schema) :: rest =>
    .object [(label, .string name), ("de", schema.toJson)] :: namedToJson label rest

end

/-! ## Induction -/

/-- What holds of a schema whenever it holds of its parts holds of all schemas. -/
@[elab_as_elim, induction_eliminator]
theorem induct {motive : Schema → Prop}
    (bool : motive .bool)
    (number : motive .number)
    (string : motive .string)
    (filePath : motive .filePath)
    (constant : ∀ type value, motive (.constant type value))
    (enumeration : ∀ type values, motive (.enumeration type values))
    (object : ∀ type fields optional, (∀ field ∈ fields, motive field.2) →
      (∀ field ∈ optional, motive field.2) → motive (.object type fields optional))
    (list : ∀ element, motive element → motive (.list element))
    (mapping : ∀ key value, motive key → motive value → motive (.mapping key value))
    (sum : ∀ type discriminant discriminantType variants,
      (∀ variant ∈ variants, motive variant.2) →
        motive (.sum type discriminant discriminantType variants))
    (custom : ∀ name types, motive (.custom name types))
    (schema : Schema) : motive schema :=
  @Schema.rec motive (fun named => ∀ entry ∈ named, motive entry.2) (fun entry => motive entry.2)
    bool number string filePath constant enumeration object list mapping sum custom
    (fun _ hmem => absurd hmem List.not_mem_nil)
    (fun _ _ hhead htail => List.forall_mem_cons.mpr ⟨hhead, htail⟩)
    (fun _ _ hschema => hschema) schema

end Schema

end ValidatorGen
