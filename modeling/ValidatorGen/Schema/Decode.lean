import ValidatorGen.Schema.Basic

/-!
# Reading schemas from JSON

A schema is an object with a member `kind` and the parts of that kind, or an array of the kind and
the parts in their order. Parts are read in the order in which they stand, a repeated one is
refused, and absent ones are asked for last; unknown members are passed over. The JSON may still
have repeated members.

An inner schema may give its kind by number. The outermost one has to name it, and a fault in its
kind has a path (`ofJson`); all other faults lie in the outermost schema as a whole.

## Strategy

All parts that a schema, a field or a variant can have are listed in `Part`. A `Draft` holds the
parts read so far, `fill` reads one of them into it, and `build` makes a schema of a draft.
-/

namespace ValidatorGen.Schema

open Json (Cause Fault)

/-- A part of a schema, a field or a variant. -/
inductive Part where
  | typeName
  | type
  | value
  | values
  | fields
  | optional
  | element
  | key
  | mapped
  | discriminant
  | discriminantType
  | variants
  | imported
  | types
  | fieldName
  | variantKey
  | schema
  deriving DecidableEq, Repr

namespace Part

/-- The member that holds a part. -/
def name : Part → String
  | typeName | type => "type"
  | value | mapped => "value"
  | values => "values"
  | fields => "fields"
  | optional => "optional"
  | element => "element"
  | key | variantKey => "key"
  | discriminant => "discriminant"
  | discriminantType => "discriminantType"
  | variants => "variants"
  | imported => "import"
  | types => "types"
  | fieldName => "name"
  | schema => "de"

/-- Whether a part may be absent; it is empty then. -/
def mayBeAbsent : Part → Bool
  | fields | optional | types => true
  | _ => false

end Part

/-- Something that is made of parts: a kind of schema, a field or a variant. -/
structure Pattern where
  title : String
  parts : List Part

/-- The wording for the number of parts of a pattern. -/
def Pattern.wanted (pattern : Pattern) : String :=
  pattern.title ++ " with " ++ Json.elementCount pattern.parts.length

def Pattern.field : Pattern := ⟨"struct Field", [.fieldName, .schema]⟩

def Pattern.variant : Pattern := ⟨"struct Sentinel", [.variantKey, .schema]⟩

/-- The parts of a kind of schema. -/
def Kind.pattern : Kind → Pattern
  | bool => ⟨"unit variant Generator::Bool", []⟩
  | number => ⟨"unit variant Generator::Number", []⟩
  | string => ⟨"unit variant Generator::String", []⟩
  | filePath => ⟨"unit variant Generator::FilePath", []⟩
  | constant => ⟨"struct variant Generator::Value", [.typeName, .value]⟩
  | enumeration => ⟨"struct variant Generator::Enum", [.type, .values]⟩
  | object => ⟨"struct variant Generator::Object", [.type, .fields, .optional]⟩
  | list => ⟨"struct variant Generator::List", [.element]⟩
  | mapping => ⟨"struct variant Generator::Mapping", [.key, .mapped]⟩
  | sum =>
    ⟨"struct variant Generator::Sum", [.type, .discriminant, .discriminantType, .variants]⟩
  | custom => ⟨"struct variant Generator::Custom", [.imported, .types]⟩

/-- The parts read so far. -/
structure Draft where
  typeName : Option String := none
  type : Option FlowType := none
  value : Option Json := none
  values : Option (List String) := none
  fields : Option (List (String × Schema)) := none
  optional : Option (List (String × Schema)) := none
  element : Option Schema := none
  key : Option Schema := none
  mapped : Option Schema := none
  discriminant : Option String := none
  discriminantType : Option FlowType := none
  variants : Option (List (String × Schema)) := none
  imported : Option String := none
  types : Option (List FlowType) := none
  name : Option String := none
  schema : Option Schema := none

/-- Whether a part has been read. -/
def Draft.has (draft : Draft) : Part → Bool
  | .typeName => draft.typeName.isSome
  | .type => draft.type.isSome
  | .value => draft.value.isSome
  | .values => draft.values.isSome
  | .fields => draft.fields.isSome
  | .optional => draft.optional.isSome
  | .element => draft.element.isSome
  | .key => draft.key.isSome
  | .mapped => draft.mapped.isSome
  | .discriminant => draft.discriminant.isSome
  | .discriminantType => draft.discriminantType.isSome
  | .variants => draft.variants.isSome
  | .imported => draft.imported.isSome
  | .types => draft.types.isSome
  | .fieldName => draft.name.isSome
  | .variantKey => draft.name.isSome
  | .schema => draft.schema.isSome

/-- The content of a part that has to be there. -/
def require {α : Type} (part : Part) : Option α → Except Cause α
  | some content => .ok content
  | none => .error (.missing part.name)

/-- The schema of a draft. The first absent part, in the order of the kind, is reported. -/
def Draft.build (draft : Draft) : Kind → Except Cause Schema
  | .bool => return .bool
  | .number => return .number
  | .string => return .string
  | .filePath => return .filePath
  | .constant => do
    let type ← require .typeName draft.typeName
    let value ← require .value draft.value
    return .constant type value
  | .enumeration => do
    let type ← require .type draft.type
    let values ← require .values draft.values
    return .enumeration type values
  | .object => do
    let type ← require .type draft.type
    return .object type (draft.fields.getD []) (draft.optional.getD [])
  | .list => do
    let element ← require .element draft.element
    return .list element
  | .mapping => do
    let key ← require .key draft.key
    let value ← require .mapped draft.mapped
    return .mapping key value
  | .sum => do
    let type ← require .type draft.type
    let discriminant ← require .discriminant draft.discriminant
    let discriminantType ← require .discriminantType draft.discriminantType
    let variants ← require .variants draft.variants
    return .sum type discriminant discriminantType variants
  | .custom => do
    let name ← require .imported draft.imported
    return .custom name (draft.types.getD [])

/-- The field or variant of a draft; `label` is the part that holds its name. -/
def Draft.buildNamed (draft : Draft) (label : Part) : Except Cause (String × Schema) := do
  let name ← require label draft.name
  let schema ← require .schema draft.schema
  return (name, schema)

/-! ## Kinds -/

def Kind.ofName (name : String) : Except Cause Kind :=
  match Kind.ofName? name with
  | some kind => .ok kind
  | none => .error (.unknownKind name (Kind.all.map Kind.name))

/-- A kind that is named. -/
def Kind.ofNaming : Json → Except Cause Kind
  | .string name => Kind.ofName name
  | json => .error (.mismatch json "variant identifier")

/-- A kind that is named or numbered. -/
def Kind.ofNumbering : Json → Except Cause Kind
  | .number (.int index) =>
    if index < 0 then .error (.mismatch (.number (.int index)) "variant identifier")
    else
      match Kind.all[index.toNat]? with
      | some kind => .ok kind
      | none => .error (.kindIndex index Kind.all.length)
  | json => Kind.ofNaming json

/-- The member that holds the kind. -/
def kindMember : String := "kind"

/-- Looks for the kind among the members of a schema; `found` is the kind met before them. -/
def kindAmong (kind : Json → Except Cause Kind) :
    List (String × Json) → Option Kind → Except Fault Kind
  | [], some found => .ok found
  | [], none => .error (.ofCause (.missing kindMember))
  | (name, json) :: rest, found =>
    if name = kindMember then
      if found.isSome then .error (.ofCause (.duplicate kindMember))
      else do
        let kind' ← Fault.behind (.member kindMember) (Fault.atRoot (kind json))
        kindAmong kind rest (some kind')
    else kindAmong kind rest found

/-- What a schema is called in messages. -/
def expected : String := "internally tagged enum Generator"

/-! ## Parts -/

def text : Json → Except Cause String
  | .string text => .ok text
  | json => .error (.mismatch json "a string")

def listOf {α : Type} (item : Json → Except Cause α) : Json → Except Cause (List α)
  | .array items => items.mapM item
  | json => .error (.mismatch json "a sequence")

mutual

/-- Reads a schema that lies within another. -/
def decode : Json → Except Cause Schema
  | .object members => do
    let kind ← Fault.pathless (kindAmong Kind.ofNumbering members none)
    let draft ← fillMembers kind.pattern members {}
    draft.build kind
  | .array [] => .error (.missing kindMember)
  | .array (kind :: items) => do
    let kind ← Kind.ofNumbering kind
    let draft ← fillItems kind.pattern items.length kind.pattern.parts items {}
    draft.build kind
  | json => .error (.mismatch json expected)
termination_by json => (sizeOf json, 0)

/-- Reads parts that are members of an object. -/
def fillMembers (pattern : Pattern) : List (String × Json) → Draft → Except Cause Draft
  | [], draft => .ok draft
  | (name, json) :: rest, draft =>
    match pattern.parts.find? (·.name == name) with
    | none => fillMembers pattern rest draft
    | some part =>
      if draft.has part then .error (.duplicate name)
      else do fillMembers pattern rest (← fill part json draft)
termination_by members => (sizeOf members, 0)

/-- Reads parts that are elements of an array, `count` of them in all. -/
def fillItems (pattern : Pattern) (count : Nat) :
    List Part → List Json → Draft → Except Cause Draft
  | [], [], draft => .ok draft
  | [], _ :: _, _ =>
    .error (.length count (Json.elementCount pattern.parts.length ++ " in sequence"))
  | part :: parts, [], draft =>
    if part.mayBeAbsent then fillItems pattern count parts [] draft
    else .error (.length count pattern.wanted)
  | part :: parts, item :: items, draft => do
    fillItems pattern count parts items (← fill part item draft)
termination_by parts items => (sizeOf items, sizeOf parts)

def fill (part : Part) (json : Json) (draft : Draft) : Except Cause Draft :=
  match part with
  | .typeName => do return { draft with typeName := some (← text json) }
  | .type => do return { draft with type := some (← FlowType.decode json) }
  | .value => return { draft with value := some json.distinct }
  | .values => do return { draft with values := some (← listOf text json) }
  | .fields => do return { draft with fields := some (← decodeAllNamed .field .fieldName json) }
  | .optional => do return { draft with optional := some (← decodeAllNamed .field .fieldName json) }
  | .element => do return { draft with element := some (← decode json) }
  | .key => do return { draft with key := some (← decode json) }
  | .mapped => do return { draft with mapped := some (← decode json) }
  | .discriminant => do return { draft with discriminant := some (← text json) }
  | .discriminantType => do
    return { draft with discriminantType := some (← FlowType.decode json) }
  | .variants => do
    return { draft with variants := some (← decodeAllNamed .variant .variantKey json) }
  | .imported => do return { draft with imported := some (← text json) }
  | .types => do return { draft with types := some (← listOf FlowType.decode json) }
  | .fieldName => do return { draft with name := some (← text json) }
  | .variantKey => do return { draft with name := some (← text json) }
  | .schema => do return { draft with schema := some (← decode json) }
termination_by (sizeOf json, 2)

def decodeAllNamed (pattern : Pattern) (label : Part) : Json → Except Cause (List (String × Schema))
  | .array items => decodeEachNamed pattern label items
  | json => .error (.mismatch json "a sequence")
termination_by json => (sizeOf json, 1)

def decodeEachNamed (pattern : Pattern) (label : Part) :
    List Json → Except Cause (List (String × Schema))
  | [] => .ok []
  | item :: items => do
    let named ← decodeNamed pattern label item
    let rest ← decodeEachNamed pattern label items
    return named :: rest
termination_by items => (sizeOf items, 0)

def decodeNamed (pattern : Pattern) (label : Part) : Json → Except Cause (String × Schema)
  | .object members => do
    let draft ← fillMembers pattern members {}
    draft.buildNamed label
  | .array items => do
    let draft ← fillItems pattern items.length pattern.parts items {}
    draft.buildNamed label
  | json => .error (.mismatch json pattern.title)
termination_by json => (sizeOf json, 0)

end

/-! ## The outermost schema -/

/-- Reads a schema of a known kind from its members. -/
def ofMembers (kind : Kind) (members : List (String × Json)) : Except Cause Schema := do
  let draft ← fillMembers kind.pattern members {}
  draft.build kind

/-- Reads a schema of a known kind from the elements that follow the kind. -/
def ofItems (kind : Kind) (items : List Json) : Except Cause Schema := do
  let draft ← fillItems kind.pattern items.length kind.pattern.parts items {}
  draft.build kind

/-- Reads the outermost schema. -/
def ofJson : Json → Except Fault Schema
  | .object members => do
    let kind ← kindAmong Kind.ofNaming members none
    Fault.atRoot (ofMembers kind members)
  | .array [] => .error (.ofCause (.missing kindMember))
  | .array (kind :: items) => do
    let kind ← Fault.behind (.element 0) (Fault.atRoot (Kind.ofNaming kind))
    Fault.atRoot (ofItems kind items)
  | json => .error (.ofCause (.mismatch json expected))

end ValidatorGen.Schema
