import ValidatorGen.Code.Identifier
import ValidatorGen.Problem
import ValidatorGen.Schema.Basic

/-!
# Legal schemas

A schema is legal if its code is: fields have names that a constant may bear, and no two fields of
an object share one; the type of a sum, its discriminant and the name of a custom validator are
identifiers; the keys of a sum differ. `check` reports the first offence in the order in which the
schema is written.
-/

namespace ValidatorGen.Schema

open ValidatorGen.Code

/-- Requires a name that a constant may bear. -/
def checkBinding (name context : String) : Except Problem Unit :=
  if isBindable name then .ok () else .error (.invalidIdentifier name context)

/-- Requires an identifier; `shown` is the name as it is reported. -/
def checkIdentifier (name shown context : String) : Except Problem Unit :=
  if isIdentifier name then .ok () else .error (.invalidIdentifier shown context)

/-- Requires a name that has not been met. -/
def checkNew (seen : List String) (name : String) (problem : Problem) : Except Problem Unit :=
  if seen.contains name then .error problem else .ok ()

mutual

/-- Reports the first offence in a schema. -/
def check : Schema → Except Problem Unit
  | .bool => .ok ()
  | .number => .ok ()
  | .string => .ok ()
  | .filePath => .ok ()
  | .constant _ _ => .ok ()
  | .enumeration _ _ => .ok ()
  | .object type fields optional => do
    let seen ← checkFields type.text [] fields
    let _ ← checkFields type.text seen optional
  | .list element => element.check
  | .mapping key value => do
    key.check
    value.check
  | .sum type discriminant _ variants => do
    checkIdentifier (type.baseName?.getD "") type.text "a sum type name"
    checkIdentifier discriminant discriminant ("the discriminant of `" ++ type.text ++ "`")
    checkVariants type.text [] variants
  | .custom name _ => checkIdentifier name name "a custom import"

/-- Checks fields one after the other. The names met so far are passed on. -/
def checkFields (type : String) (seen : List String) :
    List (String × Schema) → Except Problem (List String)
  | [] => .ok seen
  | (name, schema) :: fields => do
    checkBinding name ("a field of `" ++ type ++ "`")
    checkNew seen name (.duplicateField type name)
    schema.check
    checkFields type (name :: seen) fields

/-- Checks variants one after the other, given the keys met so far. -/
def checkVariants (type : String) (seen : List String) :
    List (String × Schema) → Except Problem Unit
  | [] => .ok ()
  | (key, schema) :: variants => do
    checkNew seen key (.duplicateVariant type key)
    schema.check
    checkVariants type (key :: seen) variants

end

end ValidatorGen.Schema
