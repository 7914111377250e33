import ValidatorGen.Check.Standard
import ValidatorGen.Schema.Basic

/-!
# Running validators without their code

`run` gives the outcome of a schema's validator on a value. Custom validators are looked up in a
table of schemas, which may refer to each other, so a run need not come to an end; `none` says that
it has not. `validate` is for schemas without custom validators.

## Strategy

`runWith` follows the schema and leaves custom validators to a given function. `resolve` looks a
name up and may do so a limited number of times, one within the other. `run` allows as many as can
follow on each other as long as no custom validator leads back to itself without looking at a part
of the value: every name once for each level of the value and, below the last level, once for a
key and once for an absent field.
-/

namespace ValidatorGen.Check

/-- Whether code finds two values identical. Arrays and objects never are. -/
def identical : Json → Json → Bool
  | .null, .null => true
  | .bool a, .bool b => a == b
  | .number a, .number b => a.toFloat == b.toFloat
  | .string a, .string b => a == b
  | _, _ => false

def constant (type : String) (expected : Json) (x : Input) : Outcome :=
  if x.typeName ≠ type then .error (.notOfType x type)
  else
    match x with
    | some json =>
      if identical json expected then .ok json else .error (.notValue x type expected)
    | none => .error (.notValue x type expected)

def enumeration (type : FlowType) (values : List String) (x : Input) : Outcome :=
  match string x with
  | .error reason => .error (.notText x type reason)
  | .ok value =>
    if values.any fun v => identical value (.string v) then .ok value
    else .error (.notListed x values)

/-- What the fields of an object are looked for in: an array has none of them. -/
def members? : Input → Except Refusal (List (String × Json))
  | some (.object members) => .ok members
  | some (.array _) => .ok []
  | some .null => .error .nullObject
  | none => .error .undefinedObject
  | x => .error (.notObject x)

/-- Whether an optional field is passed over. -/
def isAbsent : Input → Bool
  | none => true
  | some .null => true
  | _ => false

/-- The text of a discriminant, where there is one. -/
def discriminant? (name : String) : Input → Option String
  | some (.object members) =>
    match Table.get? members name with
    | some (.string tag) => some tag
    | _ => none
  | _ => none

section

variable {m : Type → Type} [Monad m]

mutual

/-- The outcome of a schema; `custom` gives the outcomes of custom validators. -/
def runWith (custom : String → Input → m Outcome) : Schema → Input → m Outcome
  | .bool, x => pure (bool x)
  | .number, x => pure (number x)
  | .string, x => pure (string x)
  | .filePath, x => pure (string x)
  | .constant type value, x => pure (constant type value x)
  | .enumeration type values, x => pure (enumeration type values x)
  | .object _ fields optional, x =>
    match members? x with
    | .error reason => pure (.error reason)
    | .ok members => do
      match ← runFields custom false members fields [] with
      | .error reason => pure (.error reason)
      | .ok result =>
        match ← runFields custom true members optional result with
        | .error reason => pure (.error reason)
        | .ok result => pure (.ok (.object result))
  | .list element, x => list (runWith custom element) x
  | .mapping key value, x => mapping (runWith custom key) (runWith custom value) x
  | .sum type discriminant discriminantType variants, x =>
    match discriminant? discriminant x with
    | none => pure (.error (.noVariant x type))
    | some tag =>
      -- a tag without a variant is refused as an enumeration of the keys refuses it
      match enumeration discriminantType (variants.map Prod.fst) (some (.string tag)) with
      | .error reason => pure (.error (.discriminant discriminant reason))
      | .ok _ => runVariant custom tag variants x
  | .custom name _, x => custom name x

/-- Looks at fields in their order and stops at the first that is refused. The accepted ones are
put into the result. -/
def runFields (custom : String → Input → m Outcome) (isOptional : Bool)
    (members : List (String × Json)) :
    List (String × Schema) → Table Json → m (Except Refusal (Table Json))
  | [], result => pure (.ok result)
  | (name, schema) :: fields, result =>
    let x := Table.get? members name
    if isOptional && isAbsent x then runFields custom isOptional members fields result
    else do
      match field name (← runWith custom schema x) with
      | .error reason => pure (.error (.member name reason))
      | .ok value => runFields custom isOptional members fields (result.set name value)

/-- Runs the first variant whose key is the tag. -/
def runVariant (custom : String → Input → m Outcome) (tag : String) :
    List (String × Schema) → Input → m Outcome
  | [], _ => pure (.error .unreachable)
  | (key, schema) :: variants, x =>
    if key = tag then runWith custom schema x else runVariant custom tag variants x

end

end

/-- The outcome of a schema's validator where no custom validator is known. -/
def validate (schema : Schema) (x : Input) : Outcome :=
  runWith (m := Id) (fun name _ => .error (.unregistered name)) schema x

/-- An outcome, unless the run has not come to an end. -/
abbrev Run := Option Outcome

/-- The outcome of a custom validator, with a limited number of further ones within it. -/
def resolve (named : Table Schema) : Nat → String → Input → Run
  | 0, name, _ => if named.has name then none else some (.error (.unregistered name))
  | steps + 1, name, x =>
    match named.get? name with
    | none => some (.error (.unregistered name))
    | some schema => runWith (resolve named steps) schema x

/-- The outcome of a schema, with a limited number of custom validators one within the other. -/
def runWithin (named : Table Schema) (steps : Nat) (schema : Schema) (x : Input) : Run :=
  runWith (resolve named steps) schema x

/-- How deep the value nests that a validator looks at. -/
def inputDepth : Input → Nat
  | none => 0
  | some json => json.depth

/-- As many custom validators as can follow on each other within a value if none leads back to
itself at once. -/
def stepsFor (named : Table Schema) (x : Input) : Nat := named.length * (inputDepth x + 3)

/-- The outcome of a schema's validator, given the schemas of custom validators. -/
def run (named : Table Schema) (schema : Schema) (x : Input) : Run :=
  runWithin named (stepsFor named x) schema x

end ValidatorGen.Check
