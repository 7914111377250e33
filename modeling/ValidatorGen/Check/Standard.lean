import ValidatorGen.Check.Refusal

/-!
# The standard checkers

The checkers that emitted code calls: those of booleans, numbers and strings return what they are
given, `list` and `mapping` look at every element before they answer and report all that are
refused, and `field` names the field of a refusal.

The validators of elements, keys and values may run in any monad, so that the same checkers serve
validators that always answer (`Id`) and those that may not come to an end (`Option`).
-/

namespace ValidatorGen.Check

def bool : Input → Outcome
  | some (.bool value) => .ok (.bool value)
  | x => .error (.notBool x)

def number : Input → Outcome
  | some (.number value) => .ok (.number value)
  | x => .error (.notNumber x)

def string : Input → Outcome
  | some (.string value) => .ok (.string value)
  | x => .error (.notString x)

/-- The outcome of a field's validator, reported under the field's name. -/
def field (name : String) : Outcome → Outcome
  | .ok value => .ok value
  | .error reason => .error (.field name reason)

/-! ## Collecting outcomes -/

def accepted : List Outcome → List Json
  | [] => []
  | .ok value :: rest => value :: accepted rest
  | .error _ :: rest => accepted rest

/-- The outcomes that refuse, numbered from an index on. -/
def refused (index : Nat) : List Outcome → List (Nat × Refusal)
  | [] => []
  | .ok _ :: rest => refused (index + 1) rest
  | .error reason :: rest => (index, reason) :: refused (index + 1) rest

/-- All values if every outcome accepts, and all refusals if one does not. -/
def collect (outcomes : List Outcome) : Except Refusal (List Json) :=
  let refusals := refused 0 outcomes
  if refusals.isEmpty then .ok (accepted outcomes) else .error (.elements refusals)

variable {m : Type → Type} [Monad m]

/-- Looks at every element of an array. -/
def list (element : Input → m Outcome) : Input → m Outcome
  | some (.array items) => do
    let outcomes ← items.mapM fun item => element (some item)
    return (collect outcomes).map Json.array
  | x => return .error (.notArray x)

/-- The names and values of what has properties: the members of an object, or the elements of an
array under their indices. -/
def properties? : Input → Option (List (String × Json))
  | some (.object members) => some members
  | some (.array items) => some (items.mapIdx fun index item => (toString index, item))
  | _ => none

/-- The name under which a property is kept whose name was accepted as a value. -/
def propertyName : Json → String
  | .string name => name
  | json => json.shown

/-- Looks at every key and then, if all are accepted, at every value. -/
def mapping (key value : Input → m Outcome) (x : Input) : m Outcome :=
  match properties? x with
  | none => return .error (.notMapping x)
  | some properties => do
    let keys ← properties.mapM fun property => key (some (.string property.1))
    match collect keys with
    | .error reason => return .error (.keys reason)
    | .ok keys =>
      let values ← properties.mapM fun property => value (some property.2)
      match collect values with
      | .error reason => return .error (.values reason)
      | .ok values => return .ok (.object (Table.ofPairs ((keys.map propertyName).zip values)))

end ValidatorGen.Check
