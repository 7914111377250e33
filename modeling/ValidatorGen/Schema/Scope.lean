import ValidatorGen.Schema.Basic

/-!
# The names in a validator's code

`fieldNames` are the constants that the code of a schema binds for fields; `eagerNames` are the
custom validators that its expression reads as soon as it is evaluated, not only when the validator
is called.
-/

namespace ValidatorGen.Schema

mutual

/-- The names of all fields, at every depth. -/
def fieldNames : Schema → List String
  | .object _ fields optional => fieldNamesOf fields ++ fieldNamesOf optional
  | .list element => element.fieldNames
  | .mapping key value => key.fieldNames ++ value.fieldNames
  | .sum _ _ _ variants => variantFieldNames variants
  | _ => []

def fieldNamesOf : List (String × Schema) → List String
  | [] => []
  | (name, schema) :: fields => name :: (schema.fieldNames ++ fieldNamesOf fields)

def variantFieldNames : List (String × Schema) → List String
  | [] => []
  | (_, schema) :: variants => schema.fieldNames ++ variantFieldNames variants

end

/-- The custom validators that are read when the expression is evaluated. Functions read them only
when they are called. -/
def eagerNames : Schema → List String
  | .custom name _ => [name]
  | .list element => element.eagerNames
  | .mapping key value => key.eagerNames ++ value.eagerNames
  | _ => []

end ValidatorGen.Schema
