import ValidatorGen.FlowType
import ValidatorGen.Json.Writer

/-!
# What validators see and say

A validator looks at a JSON value or at nothing, which code calls `undefined`. It accepts with a
value or refuses, and a `Refusal` gives its reason. Messages name a value by the text into which
code converts it.
-/

namespace ValidatorGen

/-- What a validator looks at; `none` is `undefined`. -/
abbrev Input := Option Json

namespace Json

/-- Below this number, one without a fraction shows all its digits. -/
def Number.shownBelow : Nat := 1000000000000000000000

/-- The text into which code converts a number: one without a fraction shows all its digits and
no point, up to 21 of them. -/
def Number.shown : Number → String
  | .int value => toString value
  | .float bits =>
    let parts := Binary.ofBits bits
    match parts.whole? with
    | some value =>
      if value < shownBelow then (if parts.negative then "-" else "") ++ toString value
      else (Number.float bits).text
    | none => (Number.float bits).text

mutual

/-- The text into which code converts a value. -/
def shown : Json → String
  | .null => "null"
  | .bool value => if value then "true" else "false"
  | .number value => value.shown
  | .string value => value
  | .array items => ",".intercalate (shownItems items)
  | .object _ => "[object Object]"

/-- The texts of the elements of an array, where null is empty. -/
def shownItems : List Json → List String
  | [] => []
  | .null :: items => "" :: shownItems items
  | item :: items => item.shown :: shownItems items

end

/-- The name that code gives to the type of a value. -/
def typeName : Json → String
  | .null => "object"
  | .bool _ => "boolean"
  | .number _ => "number"
  | .string _ => "string"
  | .array _ => "object"
  | .object _ => "object"

end Json

namespace Input

def shown : Input → String
  | none => "undefined"
  | some json => json.shown

def typeName : Input → String
  | none => "undefined"
  | some json => json.typeName

def jsonText : Input → String
  | none => "undefined"
  | some json => json.text

end Input

/-- Why a validator refuses what it looks at. -/
inductive Refusal where
  | notBool (x : Input)
  | notNumber (x : Input)
  | notString (x : Input)
  | notArray (x : Input)
  | notMapping (x : Input)
  /-- The elements that are refused, with their indices. -/
  | elements (refused : List (Nat × Refusal))
  | keys (reason : Refusal)
  | values (reason : Refusal)
  /-- A field, as the checker of fields reports it. -/
  | field (name : String) (reason : Refusal)
  /-- A field, as the object around it reports it. -/
  | member (name : String) (reason : Refusal)
  | nullObject
  | undefinedObject
  | notObject (x : Input)
  | notOfType (x : Input) (type : String)
  | notValue (x : Input) (type : String) (expected : Json)
  | notText (x : Input) (type : FlowType) (reason : Refusal)
  | notListed (x : Input) (listed : List String)
  | noVariant (x : Input) (type : FlowType)
  | discriminant (name : String) (reason : Refusal)
  | unreachable
  | unregistered (name : String)
  /-- A reason given by a validator from elsewhere. -/
  | stated (message : String)
  deriving Inhabited

namespace Refusal

mutual

/-- The wording of a refusal. -/
def message : Refusal → String
  | .notBool x => "Could not deserialize \"" ++ x.shown ++ "\" into a bool."
  | .notNumber x => "Could not deserialize \"" ++ x.shown ++ "\" into a number."
  | .notString x => "Could not deserialize \"" ++ x.shown ++ "\" into a string."
  | .notArray x => "Could not deserialize \"" ++ x.shown ++ "\" into an Array"
  | .notMapping x => "Could not deserialize " ++ x.shown ++ " into an object."
  | .elements refused =>
    "Could not deserialize list due to errors in the elements: " ++
      "\n".intercalate (elementMessages refused)
  | .keys reason => "Could not deserialize keys: " ++ reason.message
  | .values reason => "Could not deserialize values: " ++ reason.message
  | .field name reason => "Could not deserialize field " ++ name ++ ": " ++ reason.message
  | .member name reason => "Could not deserialize field \"" ++ name ++ "\": " ++ reason.message
  | .nullObject => "Could not deserialize json because the value is null."
  | .undefinedObject => "Could not deserialize json because the value is undefined."
  | .notObject x => "Could not deserialize object \"" ++ x.shown ++ "\""
  | .notOfType x type => "Could not deserialize \"" ++ x.shown ++ "\" into a " ++ type ++ "."
  | .notValue x type expected =>
    "Could not deserialize \"" ++ x.shown ++ "\" into a " ++ type ++ " with the value " ++
      expected.text ++ "."
  | .notText x type reason =>
    "Could not deserialize \"" ++ x.shown ++ "\" into enum \"" ++ type.text ++ "\": " ++
      reason.message
  | .notListed x listed =>
    "Could not deserialize \"" ++ x.shown ++ "\" into one of the enum values: " ++
      ", ".intercalate listed
  | .noVariant x type =>
    "Could not deserialize object into " ++ type.text ++ ": " ++ x.jsonText
  | .discriminant name reason =>
    "Sentinel field " ++ name ++ " could not deserialize properly: " ++ reason.message
  | .unreachable => "unreachable"
  | .unregistered name => "no validator is registered for `" ++ name ++ "`"
  | .stated message => message

/-- An entry for each element that is refused. -/
def elementMessages : List (Nat × Refusal) → List String
  | [] => []
  | (index, reason) :: rest =>
    ("at index " ++ toString index ++ ": " ++ reason.message) :: elementMessages rest

end

end Refusal

/-- What a validator answers. -/
abbrev Outcome := Except Refusal Json

end ValidatorGen
