import ValidatorGen.Code.Basic
import ValidatorGen.Needs
import ValidatorGen.Schema.Basic

/-!
# The code of a validator

`Schema.code` is the expression of a schema's validator: the name of a function, a checker bound to
the validators of its parts, or a function. A sum is a call to a function of its own, its
refinement, which stands in the module beside the validator.

The fields of an object are checked one after the other, each inside the branch in which the one
before it has been found right; the innermost branch builds the result from all of them.
-/

namespace ValidatorGen.Schema

open ValidatorGen.Code

/-- A new error with a message. -/
def failWith (message : Expr) : Stmt := .ret (.construct "Error" message)

/-- The text of a value, as code finds it. -/
def shown (value : Expr) : Expr := .call (.read "String") [value]

/-- A message with the text of a value between two fixed parts. -/
def naming (before : String) (value : Expr) (after : String) : Expr :=
  .binary .plus (.binary .plus (.text before) (shown value)) (.text after)

/-- The error message in a constant. -/
def messageOf (name : String) : Expr := .property (.read name) "message"

def isError (name : String) : Expr := .binary .isInstance (.read name) (.read "Error")

/-- Whether the type of a value has a name. -/
def hasType (operator : Operator) (value : Expr) (type : String) : Expr :=
  .binary operator (.typeOf value) (.text type)

/-- The beginning of most messages. -/
def messageStart : String := "Could not deserialize \""

/-! ## Functions without parts -/

/-- The validator of one value. -/
def constantCode (type : String) (value : Json) : Expr :=
  let x := Expr.read "x"
  .function "x" none [
    .when (hasType .unequal x type) [
      failWith (naming messageStart x ("\" into a " ++ type ++ "."))],
    .orWhen (.binary .identical x (.json value)) [.ret x],
    .otherwise [
      failWith (naming messageStart x
        ("\" into a " ++ type ++ " with the value " ++ value.text ++ "."))]]

/-- Whether a constant is one of several texts. -/
def isOneOf (name : String) : List String → Expr
  | [] => .json (.bool false)
  | [value] => .binary .identical (.read name) (.text value)
  | value :: values =>
    .binary .either (.binary .identical (.read name) (.text value)) (isOneOf name values)

/-- The validator of a text out of several. -/
def enumerationCode (type : FlowType) (values : List String) : Expr :=
  let v := Expr.read "v"
  .function "v" (some type) [
    .constant "either" none (.call (.read Checker.string.name) [v]),
    .when (isError "either") [
      failWith (.binary .plus
        (naming messageStart v ("\" into enum \"" ++ type.text ++ "\": ")) (messageOf "either"))],
    .otherwise [
      .when (isOneOf "either" values) [.ret (.read "either")],
      .otherwise [
        failWith (naming messageStart v
          ("\" into one of the enum values: " ++ ", ".intercalate values))]]]

/-! ## Objects -/

/-- What is done once all fields are right. -/
def buildRecord (type : FlowType) (names : List String) : List Stmt :=
  [.record "result" type names, .ret (.read "result")]

/-- Whether the parameter lacks a property of its own, or has none but a null one. -/
def isAbsent (name : String) : Expr :=
  .binary .either
    (.not (.call
      (.property (.property (.property (.read "Object") "prototype") "hasOwnProperty") "call")
      [.read "json", .text name]))
    (.binary .equal (.property (.read "json") name) (.json .null))

/-- Checks a field and goes on with the others if it is right. -/
def fieldCode (name : String) (isOptional : Bool) (validator : Expr) (others : List Stmt) :
    List Stmt :=
  let check := Expr.call (.read Checker.field.name)
    [.text name, .group validator, .property (.read "json") name]
  [ .constant name none
      (if isOptional then .conditional (isAbsent name) (.read "undefined") check else check),
    .when (isError name) [
      .constant "fieldError" (some (.named "Error")) (.read name),
      failWith (.binary .plus (.text ("Could not deserialize field \"" ++ name ++ "\": "))
        (messageOf "fieldError"))],
    -- the other fields are checked only where this one is right
    .otherwise others]

/-- The validator of an object whose members are checked by the given statements. -/
def objectCode (type : FlowType) (members : List Stmt) : Expr :=
  let json := Expr.read "json"
  .function "json" (some type) [
    .when (.binary .identical json (.json .null)) [
      failWith (.text "Could not deserialize json because the value is null.")],
    .orWhen (hasType .equal json "undefined") [
      failWith (.text "Could not deserialize json because the value is undefined.")],
    .orWhen (.binary .either (isError "json") (hasType .unequal json "object")) [
      failWith (naming "Could not deserialize object \"" json "\"")],
    .otherwise members]

/-! ## Sums -/

/-- The name of the refinement of a sum. -/
def refinementName (type : FlowType) : String := type.baseName?.getD "Sum" ++ "Refine"

/-- Whether the parameter is an object with a property of its own that holds a text. -/
def hasDiscriminant (discriminant : String) : Expr :=
  let x := Expr.read "x"
  .binary .both (.binary .both (.binary .both
    (.binary .unequal x (.json .null))
    (hasType .equal x "object"))
    (.call (.property x "hasOwnProperty") [.text discriminant]))
    (hasType .equal (.property x discriminant) "string")

/-- The refinement of a sum: it reads the discriminant and hands the whole value to the validator
of the variant that the discriminant names. -/
def refinement (type : FlowType) (discriminant : String) (tag : Expr) (cases : List Stmt) :
    Declaration where
  name := refinementName type
  parameter := "x"
  result := type
  body := [
    .when (hasDiscriminant discriminant) [
      .constant "sentinelValue" none
        (.call (.group tag) [.property (.read "x") discriminant]),
      .when (isError "sentinelValue") [
        failWith (.binary .plus
          (.text ("Sentinel field " ++ discriminant ++ " could not deserialize properly: "))
          (messageOf "sentinelValue"))],
      .otherwise [
        .select (.read "sentinelValue")
          (cases ++ [.fallback [failWith (.text "unreachable")]])]],
    .otherwise [
      failWith (.binary .plus
        (.text ("Could not deserialize object into " ++ type.text ++ ": "))
        (.call (.property (.read "JSON") "stringify") [.read "x"]))]]

/-! ## Schemas -/

/-- A checker bound to the validators of its parts. -/
def bound (checker : Checker) (validators : List Expr) : Expr :=
  .call (.property (.read checker.name) "bind") (.json .null :: validators)

mutual

/-- The expression of a schema's validator. -/
def code : Schema → Expr
  | .bool => .read Checker.bool.name
  | .number => .read Checker.number.name
  | .string => .read Checker.string.name
  | .filePath => .read Checker.string.name
  | .constant type value => constantCode type value
  | .enumeration type values => enumerationCode type values
  | .object type fields optional =>
    objectCode type (fieldsCode false fields (fieldsCode true optional
      (buildRecord type (fields.map Prod.fst ++ optional.map Prod.fst))))
  | .list element => bound .list [element.code]
  | .mapping key value => bound .mapping [key.code, value.code]
  | .sum type _ _ _ => .read (refinementName type)
  | .custom name _ => .read name

/-- Checks fields in their order, then goes on. -/
def fieldsCode (isOptional : Bool) : List (String × Schema) → List Stmt → List Stmt
  | [], last => last
  | (name, schema) :: fields, last =>
    fieldCode name isOptional schema.code (fieldsCode isOptional fields last)

end

/-- The clauses of a sum: each hands the value to the validator of its variant. -/
def casesCode (variants : List (String × Schema)) : List Stmt :=
  variants.map fun variant =>
    .case variant.1 [.ret (.call (.group variant.2.code) [.read "x"])]

/-- The refinement of a sum of the given parts. -/
def refinementOf (type : FlowType) (discriminant : String) (discriminantType : FlowType)
    (variants : List (String × Schema)) : Declaration :=
  refinement type discriminant (enumerationCode discriminantType (variants.map Prod.fst))
    (casesCode variants)

end ValidatorGen.Schema
